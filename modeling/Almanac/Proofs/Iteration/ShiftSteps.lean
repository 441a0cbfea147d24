import Almanac.Operation.Apply
import Almanac.Proofs.Iteration.Interval
import Almanac.Proofs.Iteration.Run
import Almanac.Proofs.Literal.Quantity

/-!
# Steps as shifts

A number and the letter of a unit are an interval, and after a plus sign they are a shift.  An
interval knows only seconds and months, and counts a day as so many seconds; a shift keeps the
time of day when it counts days.  Still a step of the interval ends where the shift leads, or
where the range does: always for the units of the clock and those that are counted in months, and
for days and weeks as long as the clocks of the zone are never changed.

Main definitions:

- `Component.shift`: the operation that moves an instant by a component.

Main results:

- Theorem `Plan.advance_of_collect`: where a step ends.
- Theorem `Zone.localize?_add_of_offset`: elapsed time where clocks are never changed.
- Theorem `Component.interval_of_adds`: where the two readings of a unit meet.
- Theorems `Component.shift_of_advance`, `Component.eq_of_shift_of_advance`: the interval and the
  shift of one component from one instant.
- Theorem `iterateRange_component`: the steps of a range.
-/

namespace Almanac

open Text

/-! ## The ends of steps -/

namespace Plan

variable {plan : Plan} {p : Progress} {interval : Interval}

/-- Without a transform every step ends one interval after its start, or where the range does. -/
theorem advance_of_collect (hinterval : plan.interval = some interval)
    (htransform : plan.transform = none) {steps : List Step} (h : plan.collect p = .ok steps)
    {s : Step} (hs : s ∈ steps) :
    ∃ reached, plan.advance interval s.start = .ok reached ∧
      s.stop = reached.earlier plan.stop := by
  obtain ⟨k, hk, rfl⟩ := List.getElem_of_mem hs
  have houtcome := (collect_eq_ok_iff.1 h).1 k hk
  obtain ⟨hstart, hstop, -⟩ := step_of_outcome hinterval htransform houtcome
  rw [hstart, hstop]
  exact (advance_of_outcome hinterval houtcome).2

/-- A step of fixed length succeeds exactly if its end is on the calendar. -/
theorem advance_fixed_eq_ok_iff {span : Span} {i r : Instant} :
    plan.advance (.fixed span) i = .ok r ↔ i.add? span = some r :=
  orOutOfRange_eq_ok_iff

end Plan

/-! ## Clocks that are never changed -/

namespace Civil

/-- Whole seconds more change the seconds only. -/
theorem ofNanos_ahead (total ahead : Int) :
    ofNanos (total + ahead * nanosPerSecond) =
      { ofNanos total with seconds := (ofNanos total).seconds + ahead } := by
  apply Civil.ext
  · simp only [ofNanos, nanosPerSecond]
    omega
  · simp only [ofNanos, nanosPerSecond]
    omega

/-- Elapsed time is the same however far ahead a clock is, leap seconds included. -/
theorem add_ahead (c : Civil) (ahead : Int) (d : Span) :
    ({ c with seconds := c.seconds + ahead } : Civil).add d =
      { c.add d with seconds := (c.add d).seconds + ahead } := by
  have htoNanos : ({ c with seconds := c.seconds + ahead } : Civil).toNanos =
      c.toNanos + ahead * nanosPerSecond := by
    simp only [toNanos]
    rw [Int.add_mul]
    omega
  have hleap : ({ c with seconds := c.seconds + ahead } : Civil).isLeapSecond =
      c.isLeapSecond := rfl
  have hlater (n : Int) : c.toNanos + ahead * nanosPerSecond + n =
      c.toNanos + n + ahead * nanosPerSecond := Int.add_right_comm ..
  have hbefore : c.toNanos + ahead * nanosPerSecond - nanosPerSecond + d.nanos =
      c.toNanos - nanosPerSecond + d.nanos + ahead * nanosPerSecond := by omega
  simp only [add, hleap, htoNanos, hlater, hbefore, ofNanos_ahead]
  split
  · split
    · rfl
    · split <;> rfl
  · rfl

end Civil

/-- Where clocks are never changed, the instant meant by a civil time some time later is the one
that much later. -/
theorem Zone.localize?_add_of_offset {z : Zone} {offset : Int}
    (hz : ∀ unix, z.offsetAt unix = offset) {i r : Instant} {d : Span}
    (h : i.add? d = some r) : z.localize? ((z.civil i).add d) = some r := by
  have hcivil (j : Instant) : z.civil j = { j.utc with seconds := j.utc.seconds + offset } := by
    rw [Zone.civil, hz]
  apply Zone.localize?_of_earliest?
  rw [Zone.earliest?_eq_some_iff, hcivil, hcivil, Civil.add_ahead, ← Instant.ofUtc?_eq_some_iff.1 h]
  refine ⟨rfl, ?_⟩
  intro unix hunix
  rw [hz] at hunix
  exact Int.le_of_eq (add_right_cancel hunix).symm

/-! ## One component -/

namespace Component

variable {c : Component} {i r v : Instant} {z : Zone} {interval : Interval} {plan : Plan}

/-- What is written after a plus sign. -/
def quantity (c : Component) : Quantity where
  sign := some false
  digits := c.digits
  unit := c.unit.letter
  digits_ne_nil := c.digits_ne_nil
  isDigit_of_mem := c.isDigit_of_mem
  not_isDigit := c.unit.isDigit_letter

/-- The operation that moves an instant by a component. -/
def shift (c : Component) : Operation where
  op := "+"
  value := String.ofList c.text

/-- The operation of a component is the shift by it, where it does not break off. -/
theorem apply_shift (start : WeekStart) (hcovered : (z.civil i).InRange)
    (h : (c.size : Int) ≤ maxCount) :
    c.shift.apply start z i = Almanac.shift z i c.size c.unit.letter := by
  have hshift : c.shift.apply start z i = shiftBy z i c.quantity.text := by
    simp [Operation.apply_of_inRange hcovered, shift, quantity, Quantity.text, Quantity.signText,
      IsoZone.sign, text]
  have hsize : c.quantity.size = c.size := rfl
  have hamount : c.quantity.amount = c.size := rfl
  rw [hshift, Quantity.shiftBy_text, hsize, if_pos h, hamount]
  rfl

/-- A component is the interval of what it counts for. -/
theorem parseInterval_text_eq_ok_iff :
    parseInterval (String.ofList c.text) = .ok (some interval) ↔
      Interval.Adds c.seconds c.months interval := by
  have hwritten : String.ofList c.text = written false [c] := by simp [written]
  rw [hwritten, parseInterval_written_eq_ok_iff false (List.cons_ne_nil _ _)]
  simp only [total_cons, total_nil, Nat.add_zero]

/-- The limits of an interval are within those of a shift. -/
theorem size_le_maxCount_of_adds (h : Interval.Adds c.seconds c.months interval) :
    (c.size : Int) ≤ maxCount := by
  obtain ⟨-, hseconds, hmonths⟩ := Interval.exists_adds_iff.1 ⟨_, h⟩
  simp only [maxCount]
  rcases c.size_le_seconds_or_size_le_months with hle | hle <;> omega

/-- An interval of seconds is a span within the limit. -/
theorem exists_span_of_adds {seconds : Nat} (h : Interval.Adds seconds 0 interval) :
    ∃ span, interval = .fixed span ∧ Span.ofSeconds? seconds = some span := by
  have hlimit : Span.maxSeconds = 9223372036854775 := by decide
  obtain ⟨-, hle, rfl⟩ := Interval.adds_zero_right_iff.1 h
  exact ⟨_, rfl, Span.ofSeconds?_eq_some_iff.2 ⟨rfl, by omega, by omega⟩⟩

/-- The interval of a component in the terms of a shift by its unit. -/
theorem interval_of_adds (h : Interval.Adds c.seconds c.months interval) :
    match c.unit.measure with
    | .seconds n => ∃ span, interval = .fixed span ∧ Span.ofSeconds? (c.size * n) = some span
    | .days n =>
      ∃ span, interval = .fixed span ∧ Span.ofSeconds? (c.size * n * secondsPerDay) = some span
    | .months n => interval = .calendar (c.size * n) := by
  rw [seconds, months, Period.seconds, Period.months] at h
  cases hmeasure : c.unit.measure with
  | seconds n =>
      simp only [hmeasure, Nat.mul_zero] at h
      exact_mod_cast exists_span_of_adds h
  | days n =>
      simp only [hmeasure, Nat.mul_zero, ← Nat.mul_assoc] at h
      exact_mod_cast exists_span_of_adds h
  | months n =>
      simp only [hmeasure, Nat.mul_zero] at h
      exact (Interval.adds_zero_left_iff.1 h).2.2

/-- A shift by a unit that is counted in months is one by so many months. -/
theorem shift_months_eq_ok_iff {p : Period} {n : Nat} {amount : Int} (hp : p.measure = .months n) :
    Almanac.shift z i amount p.letter = .ok r ↔ Almanac.shift z i (amount * n) 'M' = .ok r := by
  have hmonth : Period.month.measure = .months 1 := rfl
  rw [show 'M' = Period.month.letter from rfl]
  by_cases hcovered : (z.civil i).InRange
  · rw [shift_letter hcovered, shift_letter hcovered, hp, hmonth]
    simp only [Zone.bind_localize_eq_ok_iff, orOutOfRange_eq_ok_iff, Int.natCast_one, Int.mul_one]
  · constructor
    · exact fun h => absurd (inRange_of_shift (fun m => by simp [hp]) h) hcovered
    · exact fun h => absurd (inRange_of_shift (fun m => by simp [hmonth]) h) hcovered

/-- Where an interval of a unit of the clock or of months leads, the shift leads. -/
theorem shift_of_advance (hadds : Interval.Adds c.seconds c.months interval)
    (hday : c.unit ≠ .day) (hweek : c.unit ≠ .week)
    (hreached : plan.advance interval i = .ok r) :
    Almanac.shift plan.context.zone i c.size c.unit.letter = .ok r := by
  have hterms := interval_of_adds hadds
  cases hmeasure : c.unit.measure with
  | seconds n =>
      rw [hmeasure] at hterms
      obtain ⟨span, rfl, hspan⟩ := hterms
      rw [Plan.advance_fixed_eq_ok_iff] at hreached
      rw [shift_letter_of_seconds hmeasure]
      simp only [hspan, Option.bind_some, hreached, orOutOfRange]
  | days n => cases hunit : c.unit <;> simp [hunit, Period.measure] at hmeasure hday hweek
  | months n =>
      rw [hmeasure] at hterms
      subst hterms
      rw [shift_months_eq_ok_iff hmeasure, ← Int.natCast_mul]
      exact hreached

/-- Where clocks are never changed, a shift by days leads where the interval does. -/
theorem eq_of_shift_of_advance (hadds : Interval.Adds c.seconds c.months interval)
    {days : Nat} (hmeasure : c.unit.measure = .days days) {offset : Int}
    (hzone : ∀ unix, plan.context.zone.offsetAt unix = offset)
    (hreached : plan.advance interval i = .ok r)
    (hv : Almanac.shift plan.context.zone i c.size c.unit.letter = .ok v) : v = r := by
  have hterms := interval_of_adds hadds
  rw [hmeasure] at hterms
  obtain ⟨span, rfl, hspan⟩ := hterms
  rw [Plan.advance_fixed_eq_ok_iff] at hreached
  rw [shift_letter (inRange_of_shift (fun n => by simp [hmeasure]) hv), hmeasure] at hv
  simp only [hspan, Option.bind_some, Zone.bind_localize_eq_ok_iff, orOutOfRange_eq_ok_iff] at hv
  obtain ⟨moved, hmoved, hmeant⟩ := hv
  obtain ⟨rfl, -⟩ := Civil.inRange?_eq_some_iff.1 hmoved
  rw [Zone.localize?_add_of_offset hzone hreached] at hmeant
  exact (Option.some.inj hmeant).symm

end Component

/-! ## All ranges -/

/-- The steps of an interval that is one component.  Each ends where the shift by the component
leads from its start, or where the range does.  For days and weeks, of which the shift may lead
out of the calendar, this holds where clocks are never changed; the others lead somewhere from every
start where the calendar covers what the clocks show. -/
theorem iterateRange_component (c : Component) (weekStart : WeekStart) (context : Context)
    {start stop : Instant} {interval : Interval} {steps : List Step}
    (hinterval : parseInterval (String.ofList c.text) = .ok (some interval))
    (hsteps : iterateRange context start stop (some interval) none = .ok steps)
    (hzone : c.unit = .day ∨ c.unit = .week →
      ∃ offset, ∀ unix, context.zone.offsetAt unix = offset) :
    ∀ s ∈ steps,
      (∀ v, c.shift.apply weekStart context.zone s.start = .ok v → s.stop = v.earlier stop) ∧
        ((context.zone.civil s.start).InRange → c.unit ≠ .day → c.unit ≠ .week →
          ∃ v, c.shift.apply weekStart context.zone s.start = .ok v) := by
  have hadds := Component.parseInterval_text_eq_ok_iff.1 hinterval
  have hlimit := Component.size_le_maxCount_of_adds hadds
  rw [iterateRange_eq] at hsteps
  split at hsteps
  · cases hsteps
  generalize hplan : ({ context, stop, interval := some interval, transform := none } : Plan) = plan
    at hsteps
  have hcontext : context = plan.context := by rw [← hplan]
  have hend : stop = plan.stop := by rw [← hplan]
  rw [hcontext] at hzone ⊢
  rw [hend]
  intro s hs
  obtain ⟨reached, hreached, hstop⟩ :=
    Plan.advance_of_collect (by rw [← hplan]) (by rw [← hplan]) hsteps hs
  constructor
  · intro v hv
    rw [Component.apply_shift weekStart (Operation.inRange_of_apply hv) hlimit] at hv
    rw [hstop]
    by_cases hunit : c.unit = .day ∨ c.unit = .week
    · obtain ⟨offset, hoffset⟩ := hzone hunit
      obtain ⟨days, hdays⟩ : ∃ days, c.unit.measure = .days days := by
        rcases hunit with hunit | hunit <;> exact ⟨_, by rw [hunit]; rfl⟩
      rw [Component.eq_of_shift_of_advance hadds hdays hoffset hreached hv]
    · rw [not_or] at hunit
      rw [Component.shift_of_advance hadds hunit.1 hunit.2 hreached] at hv
      rw [Except.ok.inj hv]
  · intro hcovered hday hweek
    rw [Component.apply_shift weekStart hcovered hlimit]
    exact ⟨reached, Component.shift_of_advance hadds hday hweek hreached⟩

/-- Two days, as they are written. -/
def twoDays : Component where
  digits := ['2']
  unit := .day

/-- Midnight of 4 January 1970 in UTC. -/
def january4 : Instant :=
  Instant.ofSeconds 259200

/-- The three days before it, two at a time. -/
def byTwoDays : List Step :=
  [⟨0, .epoch, .ofSeconds 172800⟩, ⟨1, .ofSeconds 172800, january4⟩]

/-- Steps of two days from the epoch on. -/
theorem iterateRange_component_two_days :
    parseInterval "2d" = .ok (some (.fixed ⟨172800 * nanosPerSecond⟩)) ∧
      iterateRange { now := .epoch, zone := Zone.zero } .epoch january4
        (some (.fixed ⟨172800 * nanosPerSecond⟩)) none = .ok byTwoDays ∧
      ∀ s ∈ byTwoDays, ∀ v,
        Operation.apply .monday Zone.zero s.start ⟨"+", "2d"⟩ = .ok v →
          s.stop = v.earlier january4 := by
  have htext : String.ofList twoDays.text = "2d" := by decide
  have hinterval : parseInterval (String.ofList twoDays.text) =
      .ok (some (.fixed ⟨172800 * nanosPerSecond⟩)) :=
    Component.parseInterval_text_eq_ok_iff.2 (.fixed (by decide) (by decide))
  have hsteps : iterateRange { now := .epoch, zone := Zone.zero } .epoch january4
      (some (.fixed ⟨172800 * nanosPerSecond⟩)) none = .ok byTwoDays := by
    rw [iterateRange_eq, if_neg (by decide), Plan.collect_eq_ok_iff]
    refine ⟨?_, rfl⟩
    intro k hk
    have hk : k < 2 := hk
    obtain rfl | rfl : k = 0 ∨ k = 1 := by omega
    · rfl
    · rfl
  have hcomponent := iterateRange_component twoDays .monday _ hinterval hsteps
    fun _ => ⟨0, fun _ => rfl⟩
  rw [Component.shift, htext] at hcomponent
  rw [htext] at hinterval
  exact ⟨hinterval, hsteps, fun s hs => (hcomponent s hs).1⟩

end Almanac
