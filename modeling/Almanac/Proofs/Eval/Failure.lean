import Almanac.Eval.Basic

/-!
# Causes of failure

What the calendar computes fails for few causes.  A date fails by a unit or a text that means
nothing, or by a limit of the calendar.  An operation fails by these and by an argument that it
cannot take, and besides only if there is none of its name: then it fails whatever it is applied
to.  And an evaluation breaks off only at an instant whose civil time the calendar does not cover.

Main definitions:

- `FailsBy`: results that can only fail by errors of a kind.
- `EvalError.OfArguments`: errors about a unit, a date, an argument or a limit, and founded breaks.
- `EvalError.IsFounded`: an error that is no break, or a break where the calendar ends.
- `Operation.names`, `Operation.IsKnown`: the operations that there are.

Main results:

- Theorem `failsBy_dateValue`: a date never fails by the name of an operation.
- Theorem `Operation.apply_eq_unknownOperation_iff`: when an operation does.
- Theorem `Operation.applyAll_eq_unknownOperation_iff`: operations in a row do at the first unknown
  one that is reached.
- Theorems `failsBy_evaluate`, `failsBy_evaluateRange`, `failsBy_evaluateTransform`: where an
  evaluation breaks off.
-/

namespace Almanac

variable {α β : Type}

/-! ## Kinds of errors -/

/-- A result that can only fail by errors of a kind. -/
def FailsBy (p : EvalError → Prop) (r : Except EvalError α) : Prop :=
  ∀ error, r = .error error → p error

namespace FailsBy

variable {p q : EvalError → Prop}

/-- A result that does not fail. -/
theorem ok (a : α) : FailsBy p (.ok a) := by
  intro e h
  cases h

/-- An error of the kind. -/
theorem error {e : EvalError} (h : p e) : FailsBy p (.error e : Except EvalError α) := by
  rintro _ ⟨⟩
  exact h

/-- A kind of errors may be widened. -/
theorem mono {r : Except EvalError α} (h : FailsBy p r) (hpq : ∀ e, p e → q e) : FailsBy q r :=
  fun e he => hpq e (h e he)

/-- One result after the other fails by a kind of errors if either does. -/
theorem bind {r : Except EvalError α} {f : α → Except EvalError β} (hr : FailsBy p r)
    (hf : ∀ a, FailsBy p (f a)) : FailsBy p (r >>= f) := by
  cases r with
  | error e => exact .error (hr e rfl)
  | ok a => exact hf a

end FailsBy

/-- An error about a unit, a date, an argument or a limit of the calendar, or a break at an instant
where the calendar does not cover what the clocks show. -/
def EvalError.OfArguments (z : Zone) : EvalError → Prop
  | unknownUnit _ | invalidDateValue _ | invalidArgument _ _ | outOfRange _ => True
  | brokenOff i => ¬ (z.civil i).InRange
  | unknownOperation _ | missingVariable _ | rangeNotSingleValue | transformNotSingleValue
  | operationWithoutBase _ | notARange => False

/-- An error that is no break, or a break at an instant where the calendar does not cover what the
clocks show. -/
def EvalError.IsFounded (z : Zone) (e : EvalError) : Prop :=
  ∀ i, e = .brokenOff i → ¬ (z.civil i).InRange

/-- What the calendar computes breaks off where the calendar ends only. -/
theorem EvalError.OfArguments.isFounded {z : Zone} {e : EvalError} (h : e.OfArguments z) :
    e.IsFounded z := by
  rintro i rfl
  exact h

section Arguments

variable (z : Zone) (i : Instant) (c : Civil)

/-- To consult the clocks breaks off where the calendar does not cover what they show. -/
theorem failsBy_consult : FailsBy (EvalError.OfArguments z) (z.consult i) := by
  intro e he
  obtain ⟨hrange, rfl⟩ := Zone.consult_eq_error_iff.1 he
  exact hrange

/-- A result that may lie outside the calendar fails by its limit. -/
theorem failsBy_orOutOfRange (text : List Char) (o : Option α) :
    FailsBy (EvalError.OfArguments z) (orOutOfRange text o) := by
  cases o with
  | none => exact .error trivial
  | some a => exact .ok a

/-- A civil time without an instant fails by a limit of the calendar. -/
theorem failsBy_localize : FailsBy (EvalError.OfArguments z) (z.localize c) :=
  failsBy_orOutOfRange z _ _

/-- A shift fails by its unit or a limit of the calendar, or breaks off. -/
theorem failsBy_shift (amount : Int) (unit : Char) :
    FailsBy (EvalError.OfArguments z) (shift z i amount unit) := by
  unfold shift
  dsimp only
  split
  · exact .error trivial
  · split
    · exact failsBy_orOutOfRange z _ _
    -- A shift by days and one by months take the same steps.
    all_goals
      refine .bind (failsBy_orOutOfRange z _ _) fun _ => ?_
      refine .bind (failsBy_consult z i) fun _ => ?_
      exact .bind (failsBy_orOutOfRange z _ _) fun moved => failsBy_localize z moved

/-- A shift as a text says fails by the text besides. -/
theorem failsBy_shiftBy (text : List Char) :
    FailsBy (EvalError.OfArguments z) (shiftBy z i text) := by
  unfold shiftBy
  dsimp only
  split
  · exact .error trivial
  · split
    · exact .error trivial
    · exact .bind (failsBy_orOutOfRange z _ _) fun amount => failsBy_shift z i _ _
    · exact .error trivial

/-! ## Dates -/

section Dates

variable (ctx : Context) (text : String)

/-- The start of a day fails by a limit of the calendar. -/
theorem failsBy_midnightOf (d : Date) :
    FailsBy (EvalError.OfArguments ctx.zone) (midnightOf ctx text d) :=
  .bind (failsBy_orOutOfRange ctx.zone _ _) fun _ => failsBy_localize ctx.zone _

/-- A date and time in digits fails by its text or a limit of the calendar. -/
theorem failsBy_isoValue (offset : Option Int) :
    FailsBy (EvalError.OfArguments ctx.zone) (isoValue ctx text c offset) := by
  unfold isoValue
  split
  · exact failsBy_localize ctx.zone c
  · split
    · exact .ok _
    · exact .error trivial

/-- A date in digits fails by its text or a limit of the calendar. -/
theorem failsBy_numeralValue (today : Date) :
    FailsBy (EvalError.OfArguments ctx.zone) (numeralValue ctx today text) := by
  unfold numeralValue
  dsimp only
  split
  · exact failsBy_isoValue _ ctx text _
  · split
    · exact failsBy_localize ctx.zone _
    · exact .error trivial

/-- A text on a given day fails by what the calendar makes of it. -/
theorem failsBy_valueOn (today : Date) :
    FailsBy (EvalError.OfArguments ctx.zone) (valueOn ctx today text) := by
  unfold valueOn
  dsimp only
  split
  · exact .ok _
  split
  · exact failsBy_midnightOf ctx _ _
  split
  · exact failsBy_midnightOf ctx _ _
  split
  · exact failsBy_shiftBy ctx.zone ctx.now _
  · exact failsBy_numeralValue ctx text today

/-- A date fails only by what the calendar makes of its text, or breaks off. -/
theorem failsBy_dateValue : FailsBy (EvalError.OfArguments ctx.zone) (dateValue ctx text) :=
  .bind (failsBy_consult ctx.zone ctx.now) fun shown => failsBy_valueOn ctx text shown.date

end Dates

/-! ## Operations -/

/-- To cut fails by the unit. -/
theorem failsBy_trunc (unit : String) : FailsBy (EvalError.OfArguments z) (trunc unit c) := by
  unfold trunc
  split
  · exact .ok _
  · exact .error trivial

/-- To round fails by the unit or a limit of the calendar. -/
theorem failsBy_round (unit : String) : FailsBy (EvalError.OfArguments z) (round unit c) := by
  unfold round
  dsimp only
  split
  · split
    · exact failsBy_orOutOfRange z _ _
    · exact .ok _
  · exact .error trivial

end Arguments

namespace Operation

/-- The names of all operations. -/
def names : List String :=
  ["+", "-", "day", "time", "round", "trunc"] ++ boundaries.map Prod.fst

/-- There is an operation of that name. -/
def IsKnown (o : Operation) : Prop :=
  o.op ∈ names

instance (o : Operation) : Decidable o.IsKnown :=
  inferInstanceAs (Decidable (_ ∈ _))

variable (start : WeekStart) (z : Zone) (i : Instant) (c : Civil) {o : Operation} {op : String}

/-- A name is no boundary exactly if it is not listed. -/
theorem lookup_boundaries_eq_none_iff :
    boundaries.lookup op = none ↔ op ∉ boundaries.map Prod.fst := by
  rw [List.lookup_eq_none_iff, List.mem_map]
  constructor
  · rintro h ⟨entry, hentry, rfl⟩
    simpa using h entry hentry
  · intro h entry hentry
    rw [bne_iff_ne]
    rintro rfl
    exact h ⟨entry, hentry, rfl⟩

/-- The names of the operations, one by one. -/
theorem isKnown_iff :
    o.IsKnown ↔ o.op = "+" ∨ o.op = "-" ∨ o.op = "day" ∨ o.op = "time" ∨ o.op = "round" ∨
      o.op = "trunc" ∨ o.op ∈ boundaries.map Prod.fst := by
  simp only [IsKnown, names, List.cons_append, List.nil_append, List.mem_cons]

/-- The errors of an operation: what the calendar makes of what it is given, or that there is none of
its name. -/
def Refuses (z : Zone) (o : Operation) (e : EvalError) : Prop :=
  e.OfArguments z ∨ ¬ o.IsKnown ∧ e = .unknownOperation o.op

/-- The civil time that an operation leads to is refused by the operation alone. -/
theorem failsBy_target (hplus : o.op ≠ "+") (hminus : o.op ≠ "-") :
    FailsBy (o.Refuses z) (o.target start c) := by
  unfold target
  split
  · split
    · exact .ok _
    · exact .error (.inl trivial)
  split
  · split
    · exact .ok _
    · exact .error (.inl trivial)
  split
  · exact (failsBy_round z c _).mono fun _ => .inl
  split
  · exact (failsBy_trunc z c _).mono fun _ => .inl
  rename_i hday htime hround htrunc
  unfold boundary
  split
  · exact (failsBy_orOutOfRange z _ _).mono fun _ => .inl
  · rename_i hnone
    refine .error (.inr ⟨?_, rfl⟩)
    simpa only [isKnown_iff, hplus, hminus, hday, htime, hround, htrunc, false_or] using
      lookup_boundaries_eq_none_iff.1 hnone

/-- An operation fails by what it is given, or because there is none of its name. -/
theorem failsBy_apply (o : Operation) : FailsBy (o.Refuses z) (o.apply start z i) := by
  unfold apply
  refine .bind ((failsBy_consult z i).mono fun _ => .inl) fun shown => ?_
  split
  · exact (failsBy_shiftBy z i _).mono fun _ => .inl
  rename_i hsign
  rw [not_or] at hsign
  split
  · exact .ok _
  · exact .bind (failsBy_target start z _ hsign.1 hsign.2) fun moved =>
      (failsBy_localize z moved).mono fun _ => .inl

/-- An operation is unknown exactly if there is none of its name, whatever it is applied to, if it
does not break off there. -/
theorem apply_eq_unknownOperation_iff :
    o.apply start z i = .error (.unknownOperation op) ↔
      (z.civil i).InRange ∧ ¬ o.IsKnown ∧ op = o.op := by
  constructor
  · intro h
    by_cases hrange : (z.civil i).InRange
    · rcases failsBy_apply start z i o _ h with hargument | ⟨hknown, herror⟩
      · exact hargument.elim
      · exact ⟨hrange, hknown, EvalError.unknownOperation.inj herror⟩
    · rw [apply_of_not_inRange hrange] at h
      cases h
  · rintro ⟨hrange, hknown, rfl⟩
    simp only [isKnown_iff, not_or] at hknown
    obtain ⟨hplus, hminus, hday, htime, hround, htrunc, hboundary⟩ := hknown
    have hnone := lookup_boundaries_eq_none_iff.2 hboundary
    simp only [apply_of_inRange hrange, target, boundary, hplus, hminus, hday, htime, hround,
      htrunc, hnone, or_self, false_and, if_false]
    rfl

/-- Operations in a row fail by what one of them is given, or because there is none of its name. -/
theorem failsBy_applyAll (ops : List Operation) :
    FailsBy (fun e => e.OfArguments z ∨ ∃ op, e = .unknownOperation op)
      (applyAll start z i ops) := by
  induction ops generalizing i with
  | nil => exact .ok i
  | cons o ops ih =>
      refine .bind ((failsBy_apply start z i o).mono fun e he => ?_) ih
      exact he.imp_right fun h => ⟨o.op, h.2⟩

/-- The first operation is applied before the others. -/
theorem applyAll_cons (o : Operation) (ops : List Operation) :
    applyAll start z i (o :: ops) =
      o.apply start z i >>= fun j => applyAll start z j ops := by
  rw [applyAll, List.foldlM_cons]
  rfl

/-- Operations in a row fail by an unknown one exactly if they reach one where they do not break
off. -/
theorem applyAll_eq_unknownOperation_iff {ops : List Operation} :
    applyAll start z i ops = .error (.unknownOperation op) ↔
      ∃ front o rest, ops = front ++ o :: rest ∧ ¬ o.IsKnown ∧ op = o.op ∧
        ∃ j, applyAll start z i front = .ok j ∧ (z.civil j).InRange := by
  constructor
  · intro h
    induction ops generalizing i with
    | nil => cases h
    | cons first ops ih =>
        rw [applyAll_cons] at h
        cases hfirst : first.apply start z i with
        | error e =>
            rw [hfirst] at h
            obtain rfl : e = .unknownOperation op := Except.error.inj h
            obtain ⟨hrange, hknown, hop⟩ := (apply_eq_unknownOperation_iff start z i).1 hfirst
            exact ⟨[], first, ops, rfl, hknown, hop, i, rfl, hrange⟩
        | ok k =>
            rw [hfirst] at h
            obtain ⟨front, o, rest, rfl, hknown, hop, j, hj, hrange⟩ := ih k h
            refine ⟨first :: front, o, rest, rfl, hknown, hop, j, ?_, hrange⟩
            rw [applyAll_cons, hfirst]
            exact hj
  · rintro ⟨front, o, rest, rfl, hknown, rfl, j, hj, hrange⟩
    have hunknown := (apply_eq_unknownOperation_iff start z j).2 ⟨hrange, hknown, rfl⟩
    rw [applyAll] at hj ⊢
    rw [List.foldlM_append, hj]
    change applyAll start z j (o :: rest) = _
    rw [applyAll_cons, hunknown]
    rfl

/-- Operations in a row break off where the calendar ends only. -/
theorem isFounded_applyAll (ops : List Operation) :
    FailsBy (EvalError.IsFounded z) (applyAll start z i ops) := by
  refine (failsBy_applyAll start z i ops).mono ?_
  rintro e (hargument | ⟨op, rfl⟩)
  · exact hargument.isFounded
  · exact fun i h => by cases h

end Operation

/-! ## Expressions -/

section Expressions

variable (ctx : Context)

/-- The value of an expression breaks off where the calendar ends only. -/
theorem failsBy_evaluate (e : Expr) :
    FailsBy (EvalError.IsFounded ctx.zone) (evaluate ctx e) := by
  induction e with
  | date text => exact (failsBy_dateValue ctx text).mono fun _ h => h.isFounded
  | operation o => exact .error fun i h => by cases h
  | pipe base ops ih =>
      exact .bind ih fun i => Operation.isFounded_applyAll ctx.weekStart ctx.zone i ops
  | range start stop => exact .error fun i h => by cases h
  | var name =>
      rw [evaluate]
      cases ctx.value? name with
      | some i => exact .ok i
      | none => exact .error fun i h => by cases h
  | transform start stop => exact .error fun i h => by cases h

/-- The two ends of a range break off where the calendar ends only. -/
theorem failsBy_evaluateRange (e : Expr) :
    FailsBy (EvalError.IsFounded ctx.zone) (evaluateRange ctx e) := by
  induction e with
  | range start stop =>
      exact .bind (failsBy_evaluate ctx start) fun _ =>
        .bind (failsBy_evaluate ctx stop) fun _ => .ok _
  | pipe base ops ih =>
      rw [evaluateRange]
      split
      · exact .bind ih fun ends =>
          .bind (Operation.isFounded_applyAll ctx.weekStart ctx.zone ends.2 ops) fun _ => .ok _
      · exact .error fun i h => by cases h
  | date | operation | var | transform => exact .error fun i h => by cases h

/-- A transform breaks off where the calendar ends only. -/
theorem failsBy_evaluateTransform (t : Transform) (start stop : Instant) (index : Nat) :
    FailsBy (EvalError.IsFounded ctx.zone) (evaluateTransform ctx t start stop index) :=
  .bind (failsBy_evaluate (ctx.forStep start stop index) t.start) fun _ =>
    .bind (failsBy_evaluate (ctx.forStep start stop index) t.stop) fun _ => .ok _

end Expressions

end Almanac
