import Almanac.Proofs.Iteration.Run
import Almanac.Query

/-!
# The steps of a text

The steps that a text stands for are those of one range, so that they are numbered from 0 without
a gap.  And they break off only where the iteration of that range does, or the evaluation of its two
ends: at an instant where the calendar does not cover what the clocks show.

Main definitions:

- `QueryError.BreaksAt`: the errors that are none, but break off at an instant.

Main results:

- Theorem `index_of_iterateText`: the numbers of the steps.
- Theorem `not_inRange_of_iterateText`: where the steps of a text break off.
-/

namespace Almanac

variable {ctx : Context} {source : String} {i : Instant}

/-! ## Results one after the other -/

section Except

variable {α β ε ε' : Type} {r : Except ε α}

/-- One result after the other succeeds if both do. -/
theorem bind_eq_ok_iff {f : α → Except ε β} {b : β} :
    r >>= f = .ok b ↔ ∃ a, r = .ok a ∧ f a = .ok b := by
  cases r <;> simp [bind, Except.bind]

/-- One result after the other fails by the first, or if that succeeds by the second. -/
theorem bind_eq_error_iff {f : α → Except ε β} {e : ε} :
    r >>= f = .error e ↔ r = .error e ∨ ∃ a, r = .ok a ∧ f a = .error e := by
  cases r <;> simp [bind, Except.bind]

/-- What errors are turned into does not matter to a success. -/
theorem mapError_eq_ok_iff {f : ε → ε'} {a : α} : r.mapError f = .ok a ↔ r = .ok a := by
  cases r <;> simp [Except.mapError]

/-- An error is what another is turned into. -/
theorem mapError_eq_error_iff {f : ε → ε'} {e' : ε'} :
    r.mapError f = .error e' ↔ ∃ e, r = .error e ∧ f e = e' := by
  cases r <;> simp [Except.mapError]

end Except

/-! ## Numbers -/

/-- The steps of a text are those of a range. -/
theorem exists_iterateRange {interval : String} {transform : Option String} {steps : List Step}
    (h : iterateText ctx source interval transform = .ok steps) :
    ∃ start stop interval transform,
      iterateRange ctx start stop interval transform = .ok steps := by
  simp only [iterateText, bind_eq_ok_iff, mapError_eq_ok_iff] at h
  obtain ⟨e, -, interval, -, transform, -, ends, -, hrange⟩ := h
  exact ⟨ends.1, ends.2, interval, transform, hrange⟩

/-- The steps of a text are numbered from 0 without a gap. -/
theorem index_of_iterateText {interval : String} {transform : Option String} {steps : List Step}
    (h : iterateText ctx source interval transform = .ok steps) {k : Nat} {s : Step}
    (hs : steps[k]? = some s) : s.index = k := by
  obtain ⟨start, stop, interval, transform, hrange⟩ := exists_iterateRange h
  rw [iterateRange_eq] at hrange
  split at hrange
  · cases hrange
  · obtain ⟨hk, rfl⟩ := List.getElem?_eq_some_iff.1 hs
    have hstep := (Plan.collect_eq_ok_iff.1 hrange).1 k hk
    rw [Plan.index_of_outcome hstep, Nat.zero_add]

/-! ## Breaks -/

/-- An error that is none, but says that an evaluation or an iteration breaks off at `i`. -/
def QueryError.BreaksAt (e : QueryError) (i : Instant) : Prop :=
  e = .eval (.brokenOff i) ∨ e = .iteration (.eval (.brokenOff i))

/-- The two ends of what a text stands for break off where the calendar ends only. -/
theorem not_inRange_of_endpoints {e : Expr} {interval : Option Interval} {error : QueryError}
    (h : endpoints ctx e interval = .error error) (hbreak : error.BreaksAt i) :
    ¬ (ctx.zone.civil i).InRange := by
  unfold endpoints at h
  split at h
  · obtain ⟨cause, hcause, rfl⟩ := mapError_eq_error_iff.1 h
    obtain rfl : cause = .brokenOff i := by simpa [QueryError.BreaksAt] using hbreak
    exact failsBy_evaluateRange ctx e _ hcause i rfl
  split at h
  · obtain rfl := Except.error.inj h
    simp [QueryError.BreaksAt] at hbreak
  · obtain ⟨cause, hcause, rfl⟩ := mapError_eq_error_iff.1 h
    obtain rfl : cause = .brokenOff i := by simpa [QueryError.BreaksAt] using hbreak
    refine failsBy_evaluate ctx e _ ?_ i rfl
    cases hvalue : evaluate ctx e <;> rw [hvalue] at hcause <;> cases hcause
    rfl

/-- A text that is no interval fails by that alone. -/
theorem eq_invalidInterval_of_parseInterval {text : String} {error : IterationError}
    (h : parseInterval text = .error error) : error = .invalidInterval text := by
  unfold parseInterval at h
  split at h
  · cases h
  · split at h <;> cases h
    rfl

/-- The steps of a text break off where the calendar ends only. -/
theorem not_inRange_of_iterateText {interval : String} {transform : Option String}
    {error : QueryError} (h : iterateText ctx source interval transform = .error error)
    (hbreak : error.BreaksAt i) : ¬ (ctx.zone.civil i).InRange := by
  have hparse (cause : ParseError) : ¬ (QueryError.parse cause).BreaksAt i := by
    simp [QueryError.BreaksAt]
  simp only [iterateText, bind_eq_error_iff, mapError_eq_error_iff] at h
  rcases h with ⟨cause, -, rfl⟩ | ⟨e, -, ⟨cause, hcause, rfl⟩ | ⟨interval, -,
    ⟨cause, -, rfl⟩ | ⟨transform, -, hends | ⟨ends, -, cause, hcause, rfl⟩⟩⟩⟩
  · exact absurd hbreak (hparse cause)
  · obtain rfl := eq_invalidInterval_of_parseInterval hcause
    simp [QueryError.BreaksAt] at hbreak
  · exact absurd hbreak (hparse cause)
  · exact not_inRange_of_endpoints hends hbreak
  · obtain rfl : cause = .eval (.brokenOff i) := by simpa [QueryError.BreaksAt] using hbreak
    exact not_inRange_of_iterateRange hcause

end Almanac
