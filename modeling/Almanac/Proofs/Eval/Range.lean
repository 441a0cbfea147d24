import Almanac.Proofs.Eval.Failure
import Almanac.Proofs.Instant.Elapsed
import Almanac.Zone.Table

/-!
# Ranges and single values

An expression stands for a range or for a single instant, and which of the two can be seen from
the expression alone.  A range has no single value.  Its two instants are the single values of
its start and of its end, the operations after it being operations on its end.

Main definitions:

- `FailsByCalendar`: results that can only fail by what the calendar makes of names and numbers.
- `Expr.IsRangeUnder`: a range with operations after it.

Main results:

- Theorem `failsByCalendar_applyAll`: operations never fail for what they are applied to.
- Theorem `Expr.isRange_iff`: what is called a range is a range with operations after it.
- Theorem `evaluateRange_refines`: the two instants of a range are single values.
-/

namespace Almanac

variable {α : Type} (start : WeekStart) (z : Zone) (i : Instant)

/-! ## Errors of the calendar -/

/-- Whether an error is about a name, a number or a limit of the calendar, not about the kind of
an expression or a variable. -/
def EvalError.ofCalendar : EvalError → Bool
  | unknownUnit _ | unknownOperation _ | invalidDateValue _ | invalidArgument _ _ | outOfRange _
  | brokenOff _ => true
  | missingVariable _ | rangeNotSingleValue | transformNotSingleValue | operationWithoutBase _
  | notARange => false

/-- A result that can only fail by what the calendar makes of names and numbers. -/
def FailsByCalendar (r : Except EvalError α) : Prop :=
  ∀ error, r = .error error → error.ofCalendar = true

/-- What the calendar makes of an argument is about a name, a number or a limit. -/
theorem EvalError.OfArguments.ofCalendar {e : EvalError} (h : e.OfArguments z) :
    e.ofCalendar = true := by
  cases e <;> first | rfl | exact h.elim

/-- A date fails only by what the calendar makes of its text. -/
theorem failsByCalendar_dateValue (ctx : Context) (text : String) :
    FailsByCalendar (dateValue ctx text) :=
  (failsBy_dateValue ctx text).mono fun _ h => h.ofCalendar

/-- Operations never fail for what they are applied to. -/
theorem failsByCalendar_applyAll (ops : List Operation) :
    FailsByCalendar (Operation.applyAll start z i ops) := by
  refine (Operation.failsBy_applyAll start z i ops).mono fun e he => ?_
  rcases he with hargument | ⟨op, rfl⟩
  · exact hargument.ofCalendar
  · rfl

/-! ## Ranges with operations after them -/

/-- A range from `start` to `stop` under pipes, whose operations are `ops` from the inside out. -/
inductive Expr.IsRangeUnder (start stop : Expr) : Expr → List Operation → Prop
  | range : IsRangeUnder start stop (.range start stop) []
  | pipe {base : Expr} {ops more : List Operation} (h : IsRangeUnder start stop base ops) :
      IsRangeUnder start stop (.pipe base more) (ops ++ more)

/-- What is called a range is a range with operations after it. -/
theorem Expr.isRange_iff {e : Expr} :
    e.isRange = true ↔ ∃ start stop ops, IsRangeUnder start stop e ops := by
  constructor
  · intro h
    induction e with
    | pipe base more ih =>
        obtain ⟨start, stop, ops, hbase⟩ := ih h
        exact ⟨start, stop, ops ++ more, .pipe hbase⟩
    | range start stop => exact ⟨start, stop, [], .range⟩
    | date | operation | var | transform => cases h
  · rintro ⟨start, stop, ops, h⟩
    induction h with
    | range => rfl
    | pipe _ ih => exact ih

section Values

variable (ctx : Context) {e start stop : Expr} {ops : List Operation}

/-- A range has no single value. -/
theorem evaluate_of_isRange (h : e.isRange = true) :
    evaluate ctx e = .error .rangeNotSingleValue := by
  induction e with
  | pipe base more ih => simp only [evaluate, ih h]; rfl
  | range start stop => rfl
  | date | operation | var | transform => cases h

/-- What is no range does not fail for being one. -/
theorem evaluate_ne_rangeNotSingleValue (h : e.isRange = false) :
    evaluate ctx e ≠ .error .rangeNotSingleValue := by
  induction e with
  | date text => exact fun herror => Bool.noConfusion (failsByCalendar_dateValue ctx text _ herror)
  | pipe base more ih =>
      simp only [evaluate]
      cases hbase : evaluate ctx base with
      | error error => exact fun herror => ih h (hbase.trans (herror ▸ rfl))
      | ok i =>
          exact fun herror => Bool.noConfusion (failsByCalendar_applyAll _ _ i more _ herror)
  | var name =>
      simp only [evaluate]
      split <;> simp
  | range start stop => cases h
  | operation | transform => simp [evaluate]

/-- What is no range has no two ends. -/
theorem evaluateRange_of_isRange_eq_false (h : e.isRange = false) :
    evaluateRange ctx e = .error .notARange := by
  cases e with
  | pipe base more =>
      have hbase : base.isRange = false := h
      simp [evaluateRange, hbase]
  | range start stop => cases h
  | date | operation | var | transform => rfl

/-- The operations after a range are operations on its end. -/
theorem evaluateRange_of_isRangeUnder (h : Expr.IsRangeUnder start stop e ops) :
    evaluateRange ctx e = do
      let first ← evaluate ctx start
      let last ← evaluate ctx (.pipe stop ops)
      return (first, last) := by
  induction h with
  | range =>
      simp only [evaluateRange, evaluate, Operation.applyAll, List.foldlM_nil, bind_pure]
  | @pipe base ops more hbase ih =>
      -- The operations of the outer pipe come after all others, in the list as in the evaluation.
      have hrange : base.isRange = true := Expr.isRange_iff.2 ⟨_, _, _, hbase⟩
      simp only [evaluateRange, hrange, if_true, ih, evaluate, Operation.applyAll,
        List.foldlM_append, bind_assoc, pure_bind]

/-- A range has no single value, and what is no range has no two instants.  The two instants of a
range are those of its start and of its end with all operations, and the start fails before the
end does. -/
theorem evaluateRange_refines (ctx : Context) (e : Expr) :
    (e.isRange = true →
      evaluate ctx e = .error .rangeNotSingleValue ∧
      (∃ start stop ops, Expr.IsRangeUnder start stop e ops) ∧
      ∀ start stop ops, Expr.IsRangeUnder start stop e ops →
        (∀ error, evaluate ctx start = .error error → evaluateRange ctx e = .error error) ∧
        (∀ first error, evaluate ctx start = .ok first →
          evaluate ctx (.pipe stop ops) = .error error → evaluateRange ctx e = .error error) ∧
        ∀ first last, evaluate ctx start = .ok first →
          evaluate ctx (.pipe stop ops) = .ok last → evaluateRange ctx e = .ok (first, last)) ∧
    (e.isRange = false →
      evaluateRange ctx e = .error .notARange ∧
      evaluate ctx e ≠ .error .rangeNotSingleValue) := by
  refine ⟨fun h => ⟨evaluate_of_isRange ctx h, Expr.isRange_iff.1 h, ?_⟩, fun h =>
    ⟨evaluateRange_of_isRange_eq_false ctx h, evaluate_ne_rangeNotSingleValue ctx h⟩⟩
  intro start stop ops hunder
  rw [evaluateRange_of_isRangeUnder ctx hunder]
  refine ⟨fun error hstart => ?_, fun first error hstart hstop => ?_,
    fun first last hstart hstop => ?_⟩
  · rw [hstart]
    rfl
  · rw [hstart, hstop]
    rfl
  · rw [hstart, hstop]
    rfl

end Values

/-- The days to the end of February and one more: the first instant stays what it was. -/
theorem evaluateRange_refines_february :
    evaluate { now := .epoch, zone := .utc }
        (.pipe (.pipe (.range (.date "2024-01-31") (.date "2024-02-10")) [⟨"endofmonth", ""⟩])
          [⟨"+", "1d"⟩]) = .error .rangeNotSingleValue ∧
    evaluateRange { now := .epoch, zone := .utc }
        (.pipe (.pipe (.range (.date "2024-01-31") (.date "2024-02-10")) [⟨"endofmonth", ""⟩])
          [⟨"+", "1d"⟩]) =
      .ok (.ofSeconds 1706659200, ⟨⟨1709337599, 999999999, by decide⟩, by decide⟩) := by
  obtain ⟨hsingle, -, hparts⟩ := (evaluateRange_refines { now := .epoch, zone := .utc }
    (.pipe (.pipe (.range (.date "2024-01-31") (.date "2024-02-10")) [⟨"endofmonth", ""⟩])
      [⟨"+", "1d"⟩])).1 rfl
  have hfirst : evaluate { now := .epoch, zone := .utc } (.date "2024-01-31") =
      .ok (.ofSeconds 1706659200) := by rfl
  have hlast : evaluate { now := .epoch, zone := .utc }
      (.pipe (.date "2024-02-10") [⟨"endofmonth", ""⟩, ⟨"+", "1d"⟩]) =
        .ok ⟨⟨1709337599, 999999999, by decide⟩, by decide⟩ := by rfl
  exact ⟨hsingle, (hparts _ _ _ (.pipe (.pipe .range))).2.2 _ _ hfirst hlast⟩

end Almanac
