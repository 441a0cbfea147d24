import Almanac.Literal.Value
import Almanac.Proofs.Calendar.Civil
import Almanac.Proofs.Iteration.Run
import Almanac.Proofs.Zone.Localize
import Almanac.Zone.Table

/-!
# Ranges that start on a leap second

A date in digits may be written with second 60, which is the first moment of a leap second.  A
step from there passes the leap second as if that took no time, but the span of the step is
measured with the leap second in it, if what is reached is later in the day.  The two agree
then.  After the last second of a day they do not: what is reached lies early in the next day, and
the span falls short of the step by a second.  A step of less than two seconds is taken for what
is left of the range, and the iteration is over before it has begun.

Every later step starts at the end of the one before it, away from leap seconds, where there is
only one way to measure.

Main definitions:

- `Instant.Stalls`: that a step over the end of a day is taken for too short.

Main results:

- Theorem `nanos_mod_of_numeralValue`: a date in digits falls on a whole second.
- Theorem `Instant.second_le_since_iff_not_stalls`: which steps are long enough.
- Theorem `Plan.not_leap_or_eq_stop`: the invariant of a run, where it comes to.
- Theorem `iterateRange_from_leapSecond`: what an iteration leaves of its range.
-/

namespace Almanac

open Text

variable {context : Context} {today : Date} {text : String} {i r start stop : Instant} {span : Span}

/-! ## Dates in digits -/

/-- A clock shows whole seconds, and a leap second only as second 60. -/
theorem TimeOfDay.nanos_of_ofHMS? {hour minute second : Nat} {t : TimeOfDay}
    (h : ofHMS? hour minute second = some t) :
    t.nanos = if second = 60 then nanosPerSecond else 0 := by
  by_cases hrange : hour ≤ 23 ∧ minute ≤ 59 ∧ second ≤ 60
  · obtain ⟨hhour, hminute, hsecond⟩ := hrange
    obtain ⟨u, hu, -, -, -, hnanos⟩ := exists_ofHMS? hhour hminute hsecond
    rw [hu] at h
    cases h
    exact hnanos
  · rw [ofHMS?_eq_none hrange] at h
    cases h

/-- A time that is given by hour, minute and second has no fraction. -/
theorem TimeOfDay.nanos_mod_of_ofHMS? {hour minute second : Nat} {t : TimeOfDay}
    (h : ofHMS? hour minute second = some t) : t.nanos % nanosPerSecond = 0 := by
  rw [nanos_of_ofHMS? h]
  split <;> rfl

namespace Literal

variable {cs : List Char} {t : TimeOfDay} {c : Civil} {offset : Option Int}

/-- Neither has a time that is read. -/
theorem nanos_mod_of_clockTime? (h : clockTime? cs = some t) : t.nanos % nanosPerSecond = 0 := by
  simp only [clockTime?, Option.bind_eq_bind, Option.bind_eq_some_iff] at h
  obtain ⟨hour, -, afterHour, -, minute, -, h⟩ := h
  split at h
  · exact TimeOfDay.nanos_mod_of_ofHMS? h
  · simp only [Option.bind_eq_some_iff] at h
    obtain ⟨afterMinute, -, second, -, h⟩ := h
    split at h
    · exact TimeOfDay.nanos_mod_of_ofHMS? h
    · cases h

/-- A literal is read as a reading without a fraction. -/
theorem nanos_mod_of_iso? (h : iso? cs = some (c, offset)) : c.nanos % nanosPerSecond = 0 := by
  simp only [iso?, Option.bind_eq_bind, Option.bind_eq_some_iff, Option.some.injEq,
    Prod.mk.injEq] at h
  obtain ⟨split, -, day, -, ⟨time, zone⟩, hclock, rfl, -⟩ := h
  rw [Civil.nanos_at]
  unfold isoClock? at hclock
  split at hclock
  · cases hclock
    rfl
  · split at hclock
    · simp only [Option.bind_eq_bind, Option.bind_eq_some_iff, Option.some.injEq,
        Prod.mk.injEq] at hclock
      obtain ⟨_, htime, _, -, rfl, -⟩ := hclock
      exact nanos_mod_of_clockTime? htime
    · cases hclock

end Literal

/-- What is meant by a civil time in whole seconds is an instant in whole seconds. -/
theorem Zone.nanos_mod_of_localize {z : Zone} {c : Civil} (hc : c.nanos % nanosPerSecond = 0)
    (h : z.localize c = .ok r) : r.utc.nanos % nanosPerSecond = 0 := by
  rw [← nanos_civil z]
  rcases civil_of_localize?_cases (orOutOfRange_eq_ok_iff.1 h) with hshown | ⟨hlater, -⟩
  · rw [hshown, hc]
  · rw [hlater, Civil.nanos_add_hour, Nat.mod_mod, hc]

/-- A date in digits is an instant in whole seconds, a leap second included. -/
theorem nanos_mod_of_numeralValue (h : numeralValue context today text = .ok i) :
    i.utc.nanos % nanosPerSecond = 0 := by
  unfold numeralValue at h
  simp only at h
  split at h
  · rename_i c offset hiso
    have hc := Literal.nanos_mod_of_iso? hiso
    cases offset with
    | none => exact Zone.nanos_mod_of_localize hc h
    | some offset =>
        simp only [isoValue] at h
        split at h <;> cases h
        rename_i hutc
        rw [Instant.ofUtc?_eq_some_iff.1 hutc, hc]
  · split at h
    · rename_i time hclock
      exact Zone.nanos_mod_of_localize (Literal.nanos_mod_of_clockTime? hclock) h
    · cases h

/-- The leap seconds among the dates in digits are those at their first moment. -/
theorem nanos_of_numeralValue (h : numeralValue context today text = .ok i)
    (hleap : i.isLeapSecond = true) : i.utc.nanos = nanosPerSecond := by
  have hwhole := nanos_mod_of_numeralValue h
  have hlt := i.utc.nanos_lt
  have hle := Civil.isLeapSecond_eq_true_iff.1 hleap
  simp only [nanosPerSecond] at hwhole hlt hle ⊢
  omega

/-! ## One step -/

namespace Instant

/-- A step of a second or more leads to no leap second. -/
theorem isLeapSecond_of_add? (hspan : Span.second.nanos ≤ span.nanos)
    (h : i.add? span = some r) : r.isLeapSecond = false := by
  rw [isLeapSecond, ofUtc?_eq_some_iff.1 h]
  cases hleap : i.utc.isLeapSecond with
  | false => rw [Civil.add_of_isLeapSecond_eq_false hleap, Civil.isLeapSecond_ofNanos]
  | true => rw [Civil.add_of_isLeapSecond_eq_true hleap hspan, Civil.isLeapSecond_ofNanos]

/-- Away from leap seconds a step is as long as its span, or as what is left of the range. -/
theorem second_le_since_earlier (hi : i.isLeapSecond = false)
    (hspan : Span.second.nanos ≤ span.nanos) (h : i.add? span = some r)
    (hstop : Span.second.nanos ≤ (stop.since i).nanos) :
    Span.second.nanos ≤ ((r.earlier stop).since i).nanos := by
  unfold earlier
  split
  · exact hstop
  · obtain ⟨hr, hnanos⟩ := (add?_eq_some_iff hi).1 h
    rw [since_nanos hr hi, hnanos]
    omega

/-- A step from the last second of a day that lasts less than two seconds.  In a leap second its
span is taken for too short. -/
def Stalls (i : Instant) (span : Span) : Prop :=
  i.utc.time.seconds + 1 = secondsPerDay ∧ span.nanos < 2 * Span.second.nanos

instance (i : Instant) (span : Span) : Decidable (i.Stalls span) :=
  inferInstanceAs (Decidable (_ ∧ _))

section LeapSecond

variable (hi : i.utc.nanos = nanosPerSecond) (hspan : Span.second.nanos ≤ span.nanos)
  (h : i.add? span = some r)
include hi hspan h

/-- What is reached from a leap second, as if that took no time. -/
theorem utc_of_add? :
    r.utc.seconds = i.utc.seconds + span.nanos / nanosPerSecond ∧
      (r.utc.nanos : Int) = span.nanos % nanosPerSecond := by
  have hleap : i.utc.isLeapSecond = true :=
    Civil.isLeapSecond_eq_true_iff.2 (Nat.le_of_eq hi.symm)
  rw [ofUtc?_eq_some_iff.1 h, Civil.add_of_isLeapSecond_eq_true hleap hspan]
  simp only [Civil.ofNanos, Civil.toNanos, hi, nanosPerSecond]
  omega

/-- What is reached from a leap second lies a second or more ahead, unless the step stalls. -/
theorem second_le_since_iff_of_add? :
    Span.second.nanos ≤ (r.since i).nanos ↔ ¬ i.Stalls span := by
  obtain ⟨hseconds, hnanos⟩ := utc_of_add? hi hspan h
  have hleap : i.utc.isLeapSecond = true :=
    Civil.isLeapSecond_eq_true_iff.2 (Nat.le_of_eq hi.symm)
  have hreached : r.utc.isLeapSecond = false := isLeapSecond_of_add? hspan h
  simp only [since, Civil.since, Stalls, hleap, hreached, Bool.false_eq_true, and_true, and_false,
    if_false, Civil.time, Span.second, nanosPerSecond, secondsPerDay] at hspan hseconds hnanos hi ⊢
  split <;> omega

/-- Before what is reached by a step that stalls, less than a second is left. -/
theorem since_lt_second_of_lt (hstalls : i.Stalls span) (hstop : stop < r) :
    (stop.since i).nanos < Span.second.nanos := by
  obtain ⟨hseconds, hnanos⟩ := utc_of_add? hi hspan h
  refine Int.not_le.1 fun hlong => ?_
  have hlt := lt_of_second_le_since hlong
  have hstoplt := stop.utc.nanos_lt
  rw [lt_iff] at hstop hlt
  simp only [Stalls, since, Civil.since, Civil.time, Civil.isLeapSecond, decide_eq_true_eq,
    Span.second, nanosPerSecond, secondsPerDay]
    at hstalls hspan hseconds hnanos hi hlong hstoplt
  -- The end of the range may lie within a leap second itself, which then counts for nothing.
  split at hlong
  · omega
  · split at hlong <;> omega

/-- The first step from a leap second, as long as a second of the range is left, is long enough
unless it stalls. -/
theorem second_le_since_iff_not_stalls (hstop : Span.second.nanos ≤ (stop.since i).nanos) :
    Span.second.nanos ≤ ((r.earlier stop).since i).nanos ↔ ¬ i.Stalls span := by
  unfold earlier
  split <;> rename_i hcut
  · refine ⟨fun _ hstalls => ?_, fun _ => hstop⟩
    exact Int.not_lt.2 hstop (since_lt_second_of_lt hi hspan h hstalls hcut)
  · exact second_le_since_iff_of_add? hi hspan h

end LeapSecond

end Instant

/-! ## The run -/

namespace Plan

variable {plan : Plan} {k : Nat} {step : Step} {steps : List Step}
  (hinterval : plan.interval = some (.fixed span)) (hspan : Span.second.nanos ≤ span.nanos)
include hinterval hspan

/-- After a step a run has come away from leap seconds, or to the end of the range. -/
theorem not_leap_or_eq_stop (h : plan.outcome { current := start } k = some (.ok step)) :
    (plan.after { current := start } (k + 1)).current.isLeapSecond = false ∨
      (plan.after { current := start } (k + 1)).current = plan.stop := by
  obtain ⟨-, reached, hreached, hcurrent⟩ := advance_of_outcome hinterval h
  rw [hcurrent, Instant.earlier]
  split
  · exact .inr rfl
  · exact .inl (Instant.isLeapSecond_of_add? hspan (orOutOfRange_eq_ok_iff.1 hreached))

variable (htransform : plan.transform = none) (hstart : start.utc.nanos = nanosPerSecond)
  (h : plan.collect { current := start } = .ok steps)
include htransform hstart h

/-- A first step that stalls is the end of a run. -/
theorem eq_nil_of_stalls (hlong : Span.second.nanos ≤ (plan.stop.since start).nanos)
    (hstalls : start.Stalls span) : steps = [] := by
  obtain ⟨hsteps, -⟩ := collect_eq_ok_iff.1 h
  cases steps with
  | nil => rfl
  | cons first rest =>
      have hfirst := hsteps 0 (Nat.zero_lt_succ _)
      obtain ⟨hbegin, hend, hlength, -⟩ := step_of_outcome hinterval htransform hfirst
      obtain ⟨-, reached, hreached, hcurrent⟩ := advance_of_outcome hinterval hfirst
      rw [hbegin, hend, hcurrent] at hlength
      have hstep := Instant.second_le_since_iff_not_stalls hstart hspan
        (orOutOfRange_eq_ok_iff.1 hreached) hlong
      exact absurd hstalls (hstep.1 hlength)

/-- A run that does not stall uses up the range. -/
theorem rest_lt_of_not_stalls
    (hnot : Span.second.nanos ≤ (plan.stop.since start).nanos → ¬ start.Stalls span) :
    (plan.stop.since (lastStop start steps)).nanos < Span.second.nanos := by
  obtain ⟨hsteps, hend⟩ := collect_eq_ok_iff.1 h
  rw [← current_after_length hinterval htransform hsteps]
  refine rest_lt_of_outcome hinterval rfl (fun j hj => ⟨_, hsteps j hj⟩) hend ?_
  intro reached hreached hlong
  have hadd := orOutOfRange_eq_ok_iff.1 hreached
  -- Only the first step can start on a leap second.
  cases hlength : steps.length with
  | zero =>
      rw [hlength] at hadd hlong
      exact (Instant.second_le_since_iff_not_stalls hstart hspan hadd hlong).2 (hnot hlong)
  | succ n =>
      rw [hlength] at hadd hlong
      rcases not_leap_or_eq_stop hinterval hspan (hsteps n (by omega)) with hcurrent | hcurrent
      · exact Instant.second_le_since_earlier hcurrent hspan hadd hlong
      · rw [hcurrent] at hlong
        have hlt := Instant.lt_of_second_le_since hlong
        exact absurd (Instant.le_refl plan.stop) (Instant.not_le.2 hlt)

end Plan

/-! ## All ranges -/

/-- Division by a fixed span of a range that starts on a date in digits, of any day, within a leap
second, which only second 60 is.  What the steps leave of the range is less than a second, unless the leap
second ends a day and the span is less than two seconds.  Then the range has no steps, however
long it is. -/
theorem iterateRange_from_leapSecond (htext : numeralValue context today text = .ok start)
    (hleap : start.isLeapSecond = true) (hspan : Span.second.nanos ≤ span.nanos)
    {steps : List Step}
    (hsteps : iterateRange context start stop (some (.fixed span)) none = .ok steps) :
    ((stop.since (lastStop start steps)).nanos < Span.second.nanos ↔
        ¬ (Span.second.nanos ≤ (stop.since start).nanos ∧ start.Stalls span)) ∧
      (Span.second.nanos ≤ (stop.since start).nanos → start.Stalls span → steps = []) := by
  have hstart := nanos_of_numeralValue htext hleap
  rw [iterateRange_eq] at hsteps
  split at hsteps
  · cases hsteps
  have hnil := @Plan.eq_nil_of_stalls start span ⟨context, stop, some (.fixed span), none⟩ steps
    rfl hspan rfl hstart hsteps
  have hrest := @Plan.rest_lt_of_not_stalls start span ⟨context, stop, some (.fixed span), none⟩
    steps rfl hspan rfl hstart hsteps
  refine ⟨⟨?_, ?_⟩, hnil⟩
  · rintro hshort ⟨hlong, hstalls⟩
    rw [hnil hlong hstalls] at hshort
    exact Int.not_lt.2 hlong hshort
  · intro hnot
    exact hrest fun hlong hstalls => hnot ⟨hlong, hstalls⟩

/-- A context in UTC, at the start of 1970. -/
def atEpoch : Context where
  now := .epoch
  zone := Zone.utc

theorem nanosPerSecond_lt : nanosPerSecond < 2 * nanosPerSecond := by
  decide

/-- A leap second in the first minute of an afternoon. -/
def afternoonLeap : Instant :=
  ⟨⟨1483185659, nanosPerSecond, nanosPerSecond_lt⟩, by decide⟩

/-- The three steps of a second from there, of which the first passes the leap second. -/
def afternoonSteps : List Step :=
  [⟨0, afternoonLeap, .ofSeconds 1483185660⟩, ⟨1, .ofSeconds 1483185660, .ofSeconds 1483185661⟩,
    ⟨2, .ofSeconds 1483185661, .ofSeconds 1483185662⟩]

/-- A leap second in the afternoon is divided from, with less than a second left. -/
theorem iterateRange_from_leapSecond_afternoon :
    numeralValue atEpoch atEpoch.today "2016-12-31T12:00:60Z" = .ok afternoonLeap ∧
      iterateRange atEpoch afternoonLeap (.ofSeconds 1483185662) (some (.fixed Span.second)) none =
        .ok afternoonSteps ∧
      ((Instant.ofSeconds 1483185662).since (lastStop afternoonLeap afternoonSteps)).nanos <
        Span.second.nanos := by
  have htext : numeralValue atEpoch atEpoch.today "2016-12-31T12:00:60Z" = .ok afternoonLeap := rfl
  have hsteps : iterateRange atEpoch afternoonLeap (.ofSeconds 1483185662)
      (some (.fixed Span.second)) none = .ok afternoonSteps := by
    rw [iterateRange_eq, if_neg (by decide), Plan.collect_eq_ok_iff]
    refine ⟨?_, rfl⟩
    intro k hk
    have hk : k < 3 := hk
    obtain rfl | rfl | rfl : k = 0 ∨ k = 1 ∨ k = 2 := by omega
    · rfl
    · rfl
    · rfl
  obtain ⟨hrest, -⟩ := iterateRange_from_leapSecond htext (by decide) (by decide) hsteps
  exact ⟨htext, hsteps, hrest.2 (by decide)⟩

/-- The leap second at the end of 2016. -/
def leapOf2016 : Instant :=
  ⟨⟨1483228799, nanosPerSecond, nanosPerSecond_lt⟩, by decide⟩

/-- Two seconds past the end of 2016 are all dropped, because the first step stalls. -/
theorem iterateRange_leapOf2016 :
    dateValue atEpoch "2016-12-31T23:59:60Z" = .ok leapOf2016 ∧
      dateValue atEpoch "2017-01-01T00:00:02Z" = .ok (.ofSeconds 1483228802) ∧
      leapOf2016 ≤ .ofSeconds 1483228802 ∧
      iterateRange atEpoch leapOf2016 (.ofSeconds 1483228802) (some (.fixed Span.second)) none =
        .ok [] ∧
      ¬ ((Instant.ofSeconds 1483228802).since (lastStop leapOf2016 [])).nanos <
        Span.second.nanos := by
  refine ⟨rfl, rfl, by decide, ?_, by decide⟩
  rw [iterateRange_eq, if_neg (by decide)]
  exact Plan.collect_of_none rfl

end Almanac
