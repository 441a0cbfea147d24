import Almanac.Proofs.Iteration.Run
import Almanac.Proofs.Operation.Shift
import Almanac.Zone.Table

/-!
# Steps of calendar months

A range that is divided by months has no closed form: each step is counted from its own start,
so that a day that was cut in a short month stays cut.  But every step goes far ahead, by 26
days at least whatever the clocks do in between, and so only the end of the range can stop an
iteration.  What is left of the range after the last step is less than a second.

Main definitions:

- `monthsOn`: where so many steps in a row lead.
- `CalendarSteps`: that steps divide a range by months.

Main results:

- Theorem `unix_lt_of_shift_months`: how far one step goes at least.
- Theorem `Plan.monthsOn_of_outcome`: the invariant of a run, how far it has come.
- Theorem `Plan.after_of_monthsOn`: how far it comes while steps end within the range.
- Theorem `iterateRange_calendar`: the steps of a range, or too many.
-/

namespace Almanac

variable {z : Zone} {i r start stop : Instant} {months : Nat}

/-! ## One step -/

/-- A step of months moves what the clocks show, and leads to what the zone means by that. -/
theorem exists_of_shift_months (h : shift z i months 'M' = .ok r) :
    ∃ c, (z.civil i).addMonths? (months * (1 : Nat)) = some c ∧ z.localize? c = some r := by
  have hcovered : (z.civil i).InRange := inRange_of_shift (p := .month) (fun n h => by cases h) h
  rw [show 'M' = Period.month.letter from rfl, shift_letter hcovered] at h
  simpa only [Period.measure, Zone.bind_localize_eq_ok_iff, orOutOfRange_eq_ok_iff] using h

/-- Where a step of months leads, the calendar covers what the clocks show. -/
theorem inRange_of_shift_months (h : shift z i months 'M' = .ok r) : (z.civil r).InRange := by
  obtain ⟨c, hmoved, hmeant⟩ := exists_of_shift_months h
  exact Zone.inRange_civil_of_localize? (Civil.monthsAfter_of_addMonths? hmoved).2 hmeant

/-- A step of months reaches 26 days ahead at least: 28 on the wall, and clocks are less than a
day ahead of UTC or behind it. -/
theorem unix_lt_of_shift_months (hmonths : 1 ≤ months) (h : shift z i months 'M' = .ok r) :
    i.unix + 2246400 < r.unix := by
  obtain ⟨c, hmoved, hmeant⟩ := exists_of_shift_months h
  obtain ⟨hafter, -⟩ := Civil.monthsAfter_of_addMonths? hmoved
  have hdays := hafter.date.lt (by omega)
  have hseconds := congrArg TimeOfDay.seconds hafter.time
  have hwall := Zone.seconds_civil_eq z i
  have hoffset := z.offsetAt_bounds i.unix
  have hbounds := Zone.localize?_bounds hmeant
  simp only [Civil.date, Civil.time, secondsPerDay] at hdays hseconds
  omega

/-- A step of months fails only out of range, where it does not break off. -/
theorem outOfRange_of_shift_months {e : EvalError} (hcovered : (z.civil i).InRange)
    (h : shift z i months 'M' = .error e) : ∃ text, e = .outOfRange text :=
  outOfRange_of_shift (p := .month) hcovered h

/-- Instants a few seconds apart are a second apart, leap seconds included. -/
theorem Instant.second_le_since_of_lt (h : i.unix + 3 < r.unix) :
    Span.second.nanos ≤ (r.since i).nanos := by
  have hi := i.utc.nanos_lt
  simp only [Instant.unix] at h
  simp only [Instant.since, Civil.since, Span.second]
  split
  · simp only [nanosPerSecond] at hi ⊢
    omega
  · split <;> simp only [nanosPerSecond] at hi ⊢ <;> omega

/-- An instant that is cut at the end of the range and still lies before it was not cut. -/
theorem Instant.earlier_eq_of_lt (h : r.earlier stop < stop) : r.earlier stop = r := by
  unfold Instant.earlier at h ⊢
  split <;> rename_i hlt
  · rw [if_pos hlt] at h
    exact absurd (Instant.le_refl stop) (Instant.not_le.2 h)
  · rfl

/-- A step of months is never too short: what is reached lies a second or more ahead exactly if
the end of the range does. -/
theorem second_le_since_iff_of_shift (hmonths : 1 ≤ months)
    (h : shift z i months 'M' = .ok r) :
    Span.second.nanos ≤ ((r.earlier stop).since i).nanos ↔
      Span.second.nanos ≤ (stop.since i).nanos := by
  have hahead := unix_lt_of_shift_months hmonths h
  unfold Instant.earlier
  split <;> rename_i hcut
  · rfl
  · have hle : r.unix ≤ stop.unix := by
      rw [Instant.lt_iff] at hcut
      simp only [Instant.unix]
      omega
    have hreached : Span.second.nanos ≤ (r.since i).nanos :=
      Instant.second_le_since_of_lt (by omega)
    have hstop : Span.second.nanos ≤ (stop.since i).nanos :=
      Instant.second_le_since_of_lt (by omega)
    simp only [hreached, hstop]

/-! ## Steps in a row -/

/-- Where so many steps of months in a row lead, each counted from where the last has led. -/
def monthsOn (z : Zone) (months : Nat) (start : Instant) : Nat → Except EvalError Instant
  | 0 => .ok start
  | n + 1 => (monthsOn z months start n).bind fun i => shift z i months 'M'

/-- Of several shifts on end, the last one starts where the others lead. -/
theorem monthsOn_succ_eq_ok_iff {k : Nat} :
    monthsOn z months start (k + 1) = .ok r ↔
      ∃ i, monthsOn z months start k = .ok i ∧ shift z i months 'M' = .ok r := by
  rw [monthsOn]
  cases monthsOn z months start k <;> simp [Except.bind]

/-- Only the first of some steps in a row can start where the calendar does not cover what the clocks
show. -/
theorem inRange_of_monthsOn {k : Nat} (hstart : (z.civil start).InRange)
    (h : monthsOn z months start k = .ok i) : (z.civil i).InRange := by
  cases k with
  | zero =>
      cases h
      exact hstart
  | succ k =>
      obtain ⟨before, -, hshift⟩ := monthsOn_succ_eq_ok_iff.1 h
      exact inRange_of_shift_months hshift

/-- Steps divide a range by months.  Each begins where the steps before it have led, and ends
so many months after its own start, or where the range does.  Only the last is cut, and what it
leaves of the range is less than a second. -/
structure CalendarSteps (z : Zone) (months : Nat) (start stop : Instant) (steps : List Step) :
    Prop where
  index_eq : ∀ k (h : k < steps.length), steps[k].index = k
  start_eq : ∀ k (h : k < steps.length), monthsOn z months start k = .ok steps[k].start
  stop_eq : ∀ k (h : k < steps.length), ∃ reached,
    shift z steps[k].start months 'M' = .ok reached ∧ steps[k].stop = reached.earlier stop
  whole : ∀ k (h : k + 1 < steps.length), shift z steps[k].start months 'M' = .ok steps[k].stop
  start_lt_stop : ∀ k (h : k < steps.length), steps[k].start < steps[k].stop
  rest_lt : (stop.since (lastStop start steps)).nanos < Span.second.nanos

/-! ## The run -/

namespace Plan

section

variable {plan : Plan} {step : Step} {k : Nat}
  (hinterval : plan.interval = some (.calendar months))
include hinterval

/-- What a call does that yields a step of months. -/
theorem shift_of_outcome (h : plan.outcome { current := start } k = some (.ok step)) :
    (plan.after { current := start } k).current < plan.stop ∧
      ∃ reached,
        shift plan.context.zone (plan.after { current := start } k).current months 'M' =
          .ok reached ∧
        (plan.after { current := start } (k + 1)).current = reached.earlier plan.stop :=
  advance_of_outcome hinterval h

/-- While the range is not used up, a run has come to where its steps lead. -/
theorem monthsOn_of_outcome
    (h : ∀ j < k, ∃ s, plan.outcome { current := start } j = some (.ok s))
    (hlt : (plan.after { current := start } k).current < plan.stop) :
    monthsOn plan.context.zone months start k =
      .ok (plan.after { current := start } k).current := by
  induction k with
  | zero => rfl
  | succ k ih =>
      obtain ⟨s, hs⟩ := h k (Nat.lt_succ_self k)
      obtain ⟨hbefore, reached, hreached, hcurrent⟩ := shift_of_outcome hinterval hs
      have hk := ih (fun j hj => h j (Nat.lt_succ_of_lt hj)) hbefore
      rw [hcurrent] at hlt ⊢
      rw [Instant.earlier_eq_of_lt hlt]
      exact monthsOn_succ_eq_ok_iff.2 ⟨_, hk, hreached⟩

variable (hmonths : 1 ≤ months)
include hmonths

variable (htransform : plan.transform = none)
include htransform

/-- A run comes to where its steps lead, as long as that lies within the range. -/
theorem after_of_monthsOn (hk : k ≤ maxIterations)
    (h : monthsOn plan.context.zone months start k = .ok i) (hi : i < plan.stop) :
    plan.after { current := start } k = { current := i, index := k } ∧
      ∀ j < k, ∃ s, plan.outcome { current := start } j = some (.ok s) := by
  induction k generalizing i with
  | zero =>
      cases h
      exact ⟨rfl, fun j hj => absurd hj (Nat.not_lt_zero j)⟩
  | succ k ih =>
      obtain ⟨before, hbefore, hshift⟩ := monthsOn_succ_eq_ok_iff.1 h
      have hahead := unix_lt_of_shift_months hmonths hshift
      have hlt : before < i := Instant.lt_iff.2 (.inl (by simp only [Instant.unix] at hahead; omega))
      obtain ⟨hafter, hsteps⟩ := ih (by omega) hbefore (Instant.lt_trans hlt hi)
      have hpiece : plan.piece? { current := before, index := k } = some (.ok (before, i)) :=
        (piece?_eq_ok_iff hinterval).2 ⟨rfl, Instant.lt_trans hlt hi, rfl,
          ⟨i, hshift, (Instant.earlier_eq_left (Instant.le_of_lt hi)).symm⟩,
          Instant.second_le_since_of_lt (by omega), hk⟩
      have hnext := next_eq_ok_iff.2 ⟨i, hpiece, by rw [report, htransform], rfl⟩
      refine ⟨?_, ?_⟩
      · rw [after_succ, hafter, hnext, hinterval]
        rfl
      · intro j hj
        rcases Nat.lt_succ_iff_lt_or_eq.1 hj with hj | rfl
        · exact hsteps j hj
        · rw [outcome, hafter, hnext]
          exact ⟨_, rfl⟩

/-- The steps of a run that comes to its end divide the range. -/
theorem calendarSteps_of_collect {steps : List Step}
    (h : plan.collect { current := start } = .ok steps) :
    CalendarSteps plan.context.zone months start plan.stop steps := by
  obtain ⟨hsteps, hend⟩ := collect_eq_ok_iff.1 h
  have hbefore {k : Nat} (hk : k ≤ steps.length) :
      ∀ j < k, ∃ s, plan.outcome { current := start } j = some (.ok s) :=
    fun j hj => ⟨_, hsteps j (by omega)⟩
  have hstart {k : Nat} (hk : k < steps.length) :
      steps[k].start = (plan.after { current := start } k).current :=
    (step_of_outcome hinterval htransform (hsteps k hk)).1
  have hstop {k : Nat} (hk : k < steps.length) :
      steps[k].stop = (plan.after { current := start } (k + 1)).current :=
    (step_of_outcome hinterval htransform (hsteps k hk)).2.1
  refine ⟨?_, ?_, ?_, ?_, ?_, ?_⟩
  · intro k hk
    rw [index_of_outcome (hsteps k hk), Nat.zero_add]
  · intro k hk
    rw [hstart hk]
    exact monthsOn_of_outcome hinterval (hbefore (Nat.le_of_lt hk))
      (shift_of_outcome hinterval (hsteps k hk)).1
  · intro k hk
    obtain ⟨-, reached, hreached, hcurrent⟩ := shift_of_outcome hinterval (hsteps k hk)
    rw [hstart hk, hstop hk]
    exact ⟨reached, hreached, hcurrent⟩
  · intro k hk
    obtain ⟨-, reached, hreached, hcurrent⟩ :=
      shift_of_outcome hinterval (hsteps k (Nat.lt_of_succ_lt hk))
    -- The next step begins before the end of the range, so that this one was not cut.
    have hlt := (shift_of_outcome hinterval (hsteps (k + 1) hk)).1
    rw [hstart (Nat.lt_of_succ_lt hk), hstop (Nat.lt_of_succ_lt hk), hreached]
    rw [hcurrent] at hlt ⊢
    rw [Instant.earlier_eq_of_lt hlt]
  · intro k hk
    exact Instant.lt_of_second_le_since
      (step_of_outcome hinterval htransform (hsteps k hk)).2.2.1
  · rw [← current_after_length hinterval htransform hsteps]
    exact rest_lt_of_outcome hinterval rfl (hbefore (Nat.le_refl _)) hend
      fun reached hreached => (second_le_since_iff_of_shift hmonths hreached).2

/-- If the steps are too many, those that the limit allows leave a second or more of the
range. -/
theorem exists_monthsOn_of_collect
    (h : plan.collect { current := start } = .error (.tooManyIterations maxIterations)) :
    ∃ i, monthsOn plan.context.zone months start maxIterations = .ok i ∧
      Span.second.nanos ≤ (plan.stop.since i).nanos := by
  obtain ⟨m, hsteps, hout⟩ := collect_eq_error_iff.1 h
  have hpiece := (next_eq_error_iff htransform).1 hout
  obtain ⟨hdone, hlt, ⟨cause, -, hcause⟩ | ⟨reached, hreached, hspan, hindex, -⟩⟩ :=
    (piece?_eq_error_iff hinterval).1 hpiece
  · cases hcause
  · have hm : m = maxIterations := by
      rw [index_after hdone, Nat.zero_add] at hindex
      refine Nat.le_antisymm (Nat.not_lt.1 fun hlarge => ?_) hindex
      obtain ⟨s, hs⟩ := hsteps maxIterations hlarge
      exact absurd (lt_maxIterations_of_outcome rfl hs) (Nat.lt_irrefl _)
    subst hm
    exact ⟨_, monthsOn_of_outcome hinterval hsteps hlt,
      (second_le_since_iff_of_shift hmonths hreached).1 hspan⟩

/-- If the steps that the limit allows leave a second or more of the range, they are too many,
unless the next of them leaves the calendar. -/
theorem collect_of_monthsOn
    (h : monthsOn plan.context.zone months start maxIterations = .ok i)
    (hspan : Span.second.nanos ≤ (plan.stop.since i).nanos) :
    plan.collect { current := start } =
      match shift plan.context.zone i months 'M' with
      | .error cause => .error (.eval cause)
      | .ok _ => .error (.tooManyIterations maxIterations) := by
  have hlt := Instant.lt_of_second_le_since hspan
  obtain ⟨hafter, hsteps⟩ :=
    after_of_monthsOn hinterval hmonths htransform (Nat.le_refl _) h hlt
  have hcollect {e : IterationError}
      (hpiece : plan.piece? { current := i, index := maxIterations } = some (.error e)) :
      plan.collect { current := start } = .error e := by
    refine collect_eq_error_iff.2 ⟨maxIterations, hsteps, ?_⟩
    rw [outcome, next_eq_error_iff htransform, hafter]
    exact hpiece
  split <;> rename_i hshift
  · exact hcollect ((piece?_eq_error_iff hinterval).2 ⟨rfl, hlt, .inl ⟨_, hshift, rfl⟩⟩)
  · exact hcollect ((piece?_eq_error_iff hinterval).2 ⟨rfl, hlt, .inr ⟨_, hshift,
      (second_le_since_iff_of_shift hmonths hshift).2 hspan, Nat.le_refl _, rfl⟩⟩)

omit hmonths in
/-- Any other error is that a step leaves the calendar, if the first does not break off. -/
theorem error_of_collect {e : IterationError} (hstart : (plan.context.zone.civil start).InRange)
    (h : plan.collect { current := start } = .error e) :
    e = .tooManyIterations maxIterations ∨ ∃ text, e = .eval (.outOfRange text) := by
  obtain ⟨m, hsteps, hout⟩ := collect_eq_error_iff.1 h
  obtain ⟨-, hlt, ⟨cause, hcause, rfl⟩ | ⟨-, -, -, -, rfl⟩⟩ :=
    (piece?_eq_error_iff hinterval).1 ((next_eq_error_iff htransform).1 hout)
  · have hcovered := inRange_of_monthsOn hstart (monthsOn_of_outcome hinterval hsteps hlt)
    obtain ⟨text, rfl⟩ := outOfRange_of_shift_months hcovered hcause
    exact .inr ⟨text, rfl⟩
  · exact .inl rfl

end

end Plan

/-! ## All ranges -/

/-- Division by months.  If the range has steps, they divide it, each counted from its own
start, and what they leave is less than a second.  If the calendar covers what the clocks show at
the start, and unless a step leaves the calendar, the range has no steps exactly if they are too
many: if as many as the limit allows leave a second or more. -/
theorem iterateRange_calendar (context : Context) {start stop : Instant} {months : Nat}
    (hle : start ≤ stop) (hmonths : 1 ≤ months) :
    (∀ steps, iterateRange context start stop (some (.calendar months)) none = .ok steps →
      CalendarSteps context.zone months start stop steps) ∧
    ((context.zone.civil start).InRange →
      (∀ text, iterateRange context start stop (some (.calendar months)) none ≠
        .error (.eval (.outOfRange text))) →
      (iterateRange context start stop (some (.calendar months)) none =
          .error (.tooManyIterations maxIterations) ↔
        ∃ i, monthsOn context.zone months start maxIterations = .ok i ∧
          Span.second.nanos ≤ (stop.since i).nanos) ∧
      (iterateRange context start stop (some (.calendar months)) none ≠
          .error (.tooManyIterations maxIterations) →
        ∃ steps, iterateRange context start stop (some (.calendar months)) none = .ok steps)) := by
  have hnot : ¬ (Option.isSome (some (Interval.calendar months)) ∧ stop < start) :=
    fun h => Instant.not_le.2 h.2 hle
  rw [iterateRange_eq, if_neg hnot]
  generalize hplan : ({ context, stop, interval := some (.calendar months), transform := none } :
    Plan) = plan
  have hinterval : plan.interval = some (.calendar months) := by rw [← hplan]
  have htransform : plan.transform = none := by rw [← hplan]
  have hzone : plan.context.zone = context.zone := by rw [← hplan]
  have hstop : plan.stop = stop := by rw [← hplan]
  rw [← hzone, ← hstop]
  refine ⟨?_, fun hstart hinside => ⟨⟨?_, ?_⟩, ?_⟩⟩
  · intro steps hsteps
    exact Plan.calendarSteps_of_collect hinterval hmonths htransform hsteps
  · exact Plan.exists_monthsOn_of_collect hinterval hmonths htransform
  · rintro ⟨i, hi, hspan⟩
    have hcollect := Plan.collect_of_monthsOn hinterval hmonths htransform hi hspan
    split at hcollect <;> rename_i hshift
    · obtain ⟨text, rfl⟩ := outOfRange_of_shift_months (inRange_of_monthsOn hstart hi) hshift
      exact absurd hcollect (hinside text)
    · exact hcollect
  · intro hfew
    cases hresult : plan.collect { current := start } with
    | ok steps => exact ⟨steps, rfl⟩
    | error e =>
        rcases Plan.error_of_collect hinterval htransform hstart hresult with rfl | ⟨text, rfl⟩
        · exact absurd hresult hfew
        · exact absurd hresult (hinside text)

/-- Midnight of 31 January 2024 in New York. -/
def january31 : Instant :=
  Instant.ofSeconds 1706677200

/-- Midnight of 15 April 2024 in New York. -/
def april15 : Instant :=
  Instant.ofSeconds 1713153600

/-- The months between the two, which meet at midnight of 29 February and of 29 March; the clocks
are set forward in the second of them. -/
def spring : List Step :=
  [⟨0, january31, .ofSeconds 1709182800⟩, ⟨1, .ofSeconds 1709182800, .ofSeconds 1711684800⟩,
    ⟨2, .ofSeconds 1711684800, april15⟩]

/-- Steps of a month from the last day of January: the day is that of February from then on. -/
theorem iterateRange_calendar_spring :
    january31 ≤ april15 ∧
    iterateRange { now := january31, zone := Zone.newYork } january31 april15
      (some (.calendar 1)) none = .ok spring ∧
    CalendarSteps Zone.newYork 1 january31 april15 spring ∧
    ¬ ∃ i, monthsOn Zone.newYork 1 january31 maxIterations = .ok i ∧
      Span.second.nanos ≤ (april15.since i).nanos := by
  have hle : january31 ≤ april15 := by decide
  have hresult : iterateRange { now := january31, zone := Zone.newYork } january31 april15
      (some (.calendar 1)) none = .ok spring := by
    rw [iterateRange_eq, if_neg (by decide), Plan.collect_eq_ok_iff]
    refine ⟨?_, rfl⟩
    intro k hk
    have hk : k < 3 := hk
    obtain rfl | rfl | rfl : k = 0 ∨ k = 1 ∨ k = 2 := by omega
    · rfl
    · rfl
    · rfl
  obtain ⟨hsteps, hmany⟩ := iterateRange_calendar { now := january31, zone := Zone.newYork } hle
    (Nat.le_refl 1)
  rw [hresult] at hsteps hmany
  obtain ⟨hiff, -⟩ := hmany (by decide +kernel) fun text => by simp
  exact ⟨hle, hresult, hsteps _ rfl, fun h => by cases hiff.2 h⟩

end Almanac
