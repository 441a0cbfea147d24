import Almanac.Proofs.Expr.Piping
import Almanac.Proofs.Instant.Elapsed
import Almanac.Query

/-!
# Variables stand for their values

A variable is bound to a value, not to a text.  So the operations after a pipe give the same
from a variable as from any expression with the value of the variable; and if that expression has
no value, its error is that of the whole.

Main results:

- Theorem `evaluate_piped`: operations start from the value of their base.
- Theorem `evaluate_piped_append`: operations that come later start from the value of the rest.
- Theorem `evaluateText_pipe`: a text before a pipe can be exchanged for a variable that has its
  value.
-/

namespace Almanac

variable (ctx : Context) {base : Expr}

/-- Operations in two parts are applied one part after the other. -/
theorem Operation.applyAll_append (start : WeekStart) (z : Zone) (i : Instant)
    (ops more : List Operation) :
    applyAll start z i (ops ++ more) =
      applyAll start z i ops >>= fun j => applyAll start z j more :=
  List.foldlM_append

/-- Operations start from the value of their base. -/
theorem evaluate_piped (base : Expr) (ops : List Operation) :
    evaluate ctx (base.piped ops) =
      evaluate ctx base >>= fun i => Operation.applyAll ctx.weekStart ctx.zone i ops := by
  cases ops with
  | nil => cases hbase : evaluate ctx base <;> simp [Expr.piped, hbase, Operation.applyAll]
  | cons op ops => rfl

/-- Operations that come later start from what the others before them lead to. -/
theorem evaluate_piped_append (base : Expr) (ops more : List Operation) :
    evaluate ctx (base.piped (ops ++ more)) =
      evaluate ctx (base.piped ops) >>= fun i =>
        Operation.applyAll ctx.weekStart ctx.zone i more := by
  simp only [evaluate_piped, Operation.applyAll_append, bind_assoc]

/-- Operations on a variable start from the value that it is bound to. -/
theorem evaluate_var_bind (name : String) (i : Instant) (ops : List Operation) :
    evaluate (ctx.bind name i) ((Expr.var name).piped ops) =
      Operation.applyAll ctx.weekStart ctx.zone i ops := by
  rw [evaluate_piped]
  simp [evaluate]
  rfl

/-- The value of a text that is read is the value of what is read. -/
theorem evaluateText_of_parse {source : String} {e : Expr} (h : parse source = .ok e) :
    evaluateText ctx source = (evaluate ctx e).mapError .eval := by
  rw [evaluateText, h]
  rfl

/-- Operations on a range are a range. -/
@[simp] theorem Expr.isRange_piped (base : Expr) (ops : List Operation) :
    (base.piped ops).isRange = base.isRange := by
  cases ops <;> rfl

/-- A text before a pipe can be exchanged for a variable that has its value.  What comes after
the pipe need only be readable after a variable, and it is then readable after any expression;
that neither text is a range is not needed, since a range is an error on both sides. -/
theorem evaluateText_pipe {name front back : String} {a b : Expr}
    (hname : Shape .var name.toList) (ha : parse front = .ok a)
    (hb : parse (name ++ " | " ++ back) = .ok b) :
    (∃ e, parse (front ++ " | " ++ back) = .ok e ∧ e.isRange = a.isRange) ∧
    (∀ i, evaluateText ctx front = .ok i →
      evaluateText ctx (front ++ " | " ++ back) =
        evaluateText (ctx.bind name i) (name ++ " | " ++ back)) ∧
    (∀ error, evaluateText ctx front = .error error →
      evaluateText ctx (front ++ " | " ++ back) = .error error) := by
  obtain ⟨base, ops, op, more, rfl, rfl, hwhole⟩ := parse_pipe hname ha hb
  rw [evaluateText_of_parse ctx ha, evaluateText_of_parse ctx hwhole, evaluate_piped_append]
  refine ⟨⟨_, hwhole, by simp⟩, fun i hi => ?_, fun error herror => ?_⟩
  · have hvar : evaluate (ctx.bind name i) (.pipe (.var name) (op :: more)) =
        Operation.applyAll ctx.weekStart ctx.zone i (op :: more) :=
      evaluate_var_bind ctx name i (op :: more)
    rw [evaluateText_of_parse _ hb, hvar]
    cases hvalue : evaluate ctx (base.piped ops) with
    | error error => simp [hvalue, Except.mapError] at hi
    | ok j =>
        obtain rfl : j = i := by simpa [hvalue, Except.mapError] using hi
        rfl
  · cases hvalue : evaluate ctx (base.piped ops) with
    | error error' =>
        obtain rfl : .eval error' = error := by simpa [hvalue, Except.mapError] using herror
        rfl
    | ok j => simp [hvalue, Except.mapError] at herror

/-- A date with a clock, rounded to the day by default, and moved on by a month. -/
theorem evaluateText_pipe_round :
    (∃ e, parse "2024-01-30 12:30 round day | +1M" = .ok e ∧ e.isRange = false) ∧
    evaluateText { now := .epoch, zone := .utc } "2024-01-30 12:30 round day" =
      .ok (.ofSeconds 1706659200) ∧
    evaluateText { now := .epoch, zone := .utc } "2024-01-30 12:30 round day | +1M" =
      evaluateText (Context.bind { now := .epoch, zone := .utc } "$x" (.ofSeconds 1706659200))
        "$x | +1M" := by
  have hname : Shape .var "$x".toList := by
    rw [show "$x".toList = ['$', 'x'] from rfl]
    exact .var (by simp)
  have hfront : parse "2024-01-30 12:30 round day" =
      .ok (.pipe (.date "2024-01-30 12:30") [⟨"round", "day"⟩]) := by decide +kernel
  have hback : parse ("$x" ++ " | " ++ "+1M") = .ok (.pipe (.var "$x") [⟨"+", "1M"⟩]) := by
    decide +kernel
  have hvalue : evaluateText { now := .epoch, zone := .utc } "2024-01-30 12:30 round day" =
      .ok (.ofSeconds 1706659200) := by decide +kernel
  obtain ⟨hreads, hok, -⟩ :=
    evaluateText_pipe { now := .epoch, zone := .utc } hname hfront hback
  exact ⟨hreads, hvalue, hok _ hvalue⟩

end Almanac
