import Almanac.Proofs.Operation.Tiling
import Almanac.Proofs.Zone.Localize
import Almanac.Zone.Table

/-!
# Operations by the clock, while clocks are changed

The boundaries of seconds, minutes, hours and days, and rounding to these units, are found
on the wall clock, and from there the zone goes back to an instant.  Where the clocks were
changed in between, this need not be an instant of the same period: the first instant that
shows the boundary can be an hour away.  This module says exactly when the operations stay
within the period, in any zone.  They do where no clock was changed on the way.

Main definitions:

- `Period.roundTo`: a civil time rounded to a unit of the clock.
- `Period.StaysWithin`: from an instant, the operations of a unit lead to the two ends of
  its period and to an instant at most half the unit away.
- `Period.SlipsWithin`: the clock changes near an instant are too small to spoil that.

Main results:

- Theorem `Period.roundTo_bounds`: rounding on the wall goes at most half a unit.
- Theorem `Period.staysWithin_of_keeps`: the operations stay within the period where the
  offset is kept.
- Theorem `Period.staysWithin_iff_slipsWithin`: exactly when they do.
- Theorem `clock_operations_leave_period`: an instant at which they do not.
-/

namespace Almanac

variable {start : WeekStart} {z : Zone} {p : Period} {length : Nat} {unit : String} {c d : Civil}
  {i r : Instant}

/-! ## Rounding on the wall -/

/-- The operation that rounds to a unit. -/
def Operation.rounding (unit : String) : Operation where
  op := "round"
  value := unit

/-- What can be rounded to is a day, an hour or a minute. -/
theorem roundingLength?_cases (hunit : roundingLength? unit = some length) :
    length = 86400 ∨ length = 3600 ∨ length = 60 := by
  obtain ⟨before, after, htable, -⟩ := List.lookup_eq_some_iff.1 hunit
  have hmem : (unit, length) ∈ [("", 86400), ("day", 86400), ("hour", 3600), ("minute", 60)] := by
    rw [htable]
    simp
  simp only [List.mem_cons, Prod.mk.injEq, List.not_mem_nil, or_false] at hmem
  omega

namespace Period

/-- A civil time rounded to a unit of the clock, a half up. -/
def roundTo (length : Nat) (c : Civil) : Civil where
  seconds := c.seconds / length * length + if inSecondHalf length c then length else 0
  nanos := 0
  nanos_lt := TimeOfDay.midnight.nanos_lt

/-- What is found by rounding; rounding up can go past the end of the calendar. -/
theorem round_eq_ok_iff (hunit : roundingLength? unit = some length) :
    round unit c = .ok d ↔ d = roundTo length c ∧ (inSecondHalf length c = true → d.InRange) := by
  rw [round, hunit]
  cases hhalf : inSecondHalf length c with
  | false =>
      have hdown : floorTo length c = roundTo length c := by
        apply Civil.ext
        · simp [floorTo, roundTo, hhalf]
        · rfl
      simp [hhalf, hdown, eq_comm]
  | true =>
      have hspan : Span.ofSeconds? length = some ⟨length * nanosPerSecond⟩ := by
        have hcases := roundingLength?_cases hunit
        have hlimit : (86400 : Int) ≤ Span.maxSeconds := by decide
        rw [Span.ofSeconds?, if_pos (by omega)]
      have hup : (floorTo length c).add ⟨length * nanosPerSecond⟩ = roundTo length c := by
        rw [Civil.add_of_isLeapSecond_eq_false rfl]
        apply Civil.ext
        · simp only [floorTo, roundTo, hhalf, if_true, Civil.ofNanos, Civil.toNanos, nanosPerSecond]
          omega
        · simp only [floorTo, roundTo, Civil.ofNanos, Civil.toNanos, nanosPerSecond]
          omega
      simp only [hhalf, if_true, hspan, Option.bind_some, orOutOfRange_eq_ok_iff, Civil.add?, hup,
        Civil.inRange?_eq_some_iff, forall_const]

/-- Rounding goes back by less than half a unit, or forward by half a unit at most. -/
theorem roundTo_bounds (hunit : roundingLength? unit = some length)
    (hc : c.isLeapSecond = false) :
    -(length * nanosPerSecond : Int) ≤ 2 * (c.toNanos - (roundTo length c).toNanos) ∧
      2 * (c.toNanos - (roundTo length c).toNanos) < length * nanosPerSecond := by
  have hnanos := Civil.isLeapSecond_eq_false_iff.1 hc
  simp only [roundTo, inSecondHalf, Civil.toNanos, nanosPerSecond, decide_eq_true_eq] at hnanos ⊢
  -- All units are even, so that no second begins just before the middle.
  rcases roundingLength?_cases hunit with rfl | rfl | rfl
  all_goals
    split <;> omega

/-- Rounding on the wall goes at most half a unit. -/
theorem two_mul_roundTo_sub_le (hunit : roundingLength? unit = some length)
    (hc : c.isLeapSecond = false) :
    2 * ((roundTo length c).toNanos - c.toNanos).natAbs ≤ length * nanosPerSecond := by
  obtain ⟨hlower, hupper⟩ := roundTo_bounds hunit hc
  omega

end Period

/-! ## From the wall to instants -/

namespace Operation

/-- Rounding leads to the instant that the zone means by the rounded civil time. -/
theorem apply_rounding_eq_ok_iff :
    (rounding unit).apply start z i = .ok r ↔
      (z.civil i).InRange ∧ ∃ d, round unit (z.civil i) = .ok d ∧ z.localize? d = some r := by
  rw [apply, Zone.consult_bind_eq_ok_iff]
  simp only [rounding, target, String.reduceEq, or_self, false_and, if_false, if_true]
  rw [Zone.bind_localize_eq_ok_iff]

end Operation

namespace Period

variable {s e : Instant}

section Clock

variable (hlength : p.clockLength? = some length)
include hlength

/-- The start of a period leads to the instant that the zone means by its first second. -/
theorem apply_first_eq_ok_iff : (Edge.first.of p).apply start z i = .ok s ↔
    (z.civil i).InRange ∧ z.localize? (floorTo length (z.civil i)) = some s := by
  simp [Edge.apply_eq_ok_iff, boundary?, hlength]

/-- The end of a period leads to the instant that the zone means by its last nanosecond. -/
theorem apply_last_eq_ok_iff : (Edge.last.of p).apply start z i = .ok e ↔
    (z.civil i).InRange ∧ z.localize? (ceilTo length (z.civil i)) = some e := by
  simp [Edge.apply_eq_ok_iff, boundary?, hlength]

end Clock

/-- The start of a period is not after the instant exactly if it slips forward by no more
than the instant is into the period. -/
theorem le_iff_slip_le (h : z.localize? (floorTo length (z.civil i)) = some s) :
    s ≤ i ↔ z.slip i s (floorTo length (z.civil i)) ≤ (z.civil i).seconds % length := by
  have hunix := Zone.unix_of_localize? h i
  have hnanos : s.utc.nanos = 0 := Zone.nanos_of_localize? rfl h
  have hdivision := Int.emod_add_mul_ediv (z.civil i).seconds length
  rw [Instant.le_iff, hnanos]
  simp only [floorTo, Instant.unix, Int.mul_comm] at hunix hdivision ⊢
  omega

/-- The end of a period is not before the instant exactly if it slips back by less than is
left of the period. -/
theorem le_iff_lt_slip (hi : i.isLeapSecond = false) (hpos : 0 < length)
    (h : z.localize? (ceilTo length (z.civil i)) = some e) :
    i ≤ e ↔ (z.civil i).seconds % length < length + z.slip i e (ceilTo length (z.civil i)) := by
  have hunix := Zone.unix_of_localize? h i
  have hnanos : e.utc.nanos = 999999999 := Zone.nanos_of_localize? rfl h
  have hfraction := Civil.isLeapSecond_eq_false_iff.1 hi
  have hdivision := Int.emod_add_mul_ediv (z.civil i).seconds length
  rw [Instant.le_iff, hnanos]
  simp only [ceilTo, Instant.unix, Int.mul_comm, nanosPerSecond] at hunix hdivision hfraction ⊢
  omega

/-- The span to what a civil time without a fraction means, by its slip. -/
theorem nanos_since_of_localize? (hi : i.isLeapSecond = false) (hd : d.nanos = 0)
    (h : z.localize? d = some r) :
    (r.since i).nanos = d.toNanos - (z.civil i).toNanos + z.slip i r d * nanosPerSecond := by
  have hleap : d.isLeapSecond = false := Civil.isLeapSecond_eq_false_iff.2 (by rw [hd]; decide)
  have hunix := Zone.unix_of_localize? h i
  have hnanos : r.utc.nanos = 0 := (Zone.nanos_of_localize? hleap h).trans hd
  have hr : r.isLeapSecond = false := Civil.isLeapSecond_eq_false_iff.2 (by rw [hnanos]; decide)
  rw [Instant.since_nanos hr hi]
  simp only [Instant.nanos, Civil.toNanos, Zone.nanos_civil, hnanos, hd, Instant.unix,
    nanosPerSecond] at hunix ⊢
  omega

/-! ## Within the period -/

/-- From an instant, the operations of a unit of the clock lead to a start that is not
later, to an end that is not earlier, and by rounding at most half the unit away. -/
structure StaysWithin (start : WeekStart) (z : Zone) (p : Period) (i : Instant) : Prop where
  first : ∃ s, (Edge.first.of p).apply start z i = .ok s ∧ s ≤ i
  last : ∃ e, (Edge.last.of p).apply start z i = .ok e ∧ i ≤ e
  round : ∀ length unit, p.clockLength? = some length → roundingLength? unit = some length →
    ∃ r, (Operation.rounding unit).apply start z i = .ok r ∧
      2 * (r.since i).nanos.natAbs ≤ length * nanosPerSecond

/-- The calendar covers what the clocks show; what the zone means by the ends of a period on the
wall slips no farther than to the instant itself; and by rounding what is found lies at most half
the unit away, its slip counted in. -/
structure SlipsWithin (z : Zone) (length : Nat) (i : Instant) : Prop where
  inRange : (z.civil i).InRange
  first : ∃ s, z.localize? (floorTo length (z.civil i)) = some s ∧
    z.slip i s (floorTo length (z.civil i)) ≤ (z.civil i).seconds % length
  last : ∃ e, z.localize? (ceilTo length (z.civil i)) = some e ∧
    (z.civil i).seconds % length < length + z.slip i e (ceilTo length (z.civil i))
  round : ∀ unit, roundingLength? unit = some length →
    (inSecondHalf length (z.civil i) = true → (roundTo length (z.civil i)).InRange) ∧
    ∃ r, z.localize? (roundTo length (z.civil i)) = some r ∧
      2 * ((roundTo length (z.civil i)).toNanos - (z.civil i).toNanos +
        z.slip i r (roundTo length (z.civil i)) * nanosPerSecond).natAbs ≤ length * nanosPerSecond

/-- The operations by the clock stay within the period of an instant exactly if the clock
changes on the way are small enough. -/
theorem staysWithin_iff_slipsWithin (hlength : p.clockLength? = some length)
    (hi : i.isLeapSecond = false) : StaysWithin start z p i ↔ SlipsWithin z length i := by
  have hpos := clockLength?_pos hlength
  constructor
  · intro h
    obtain ⟨s, hs, hsle⟩ := h.first
    obtain ⟨e, he, hele⟩ := h.last
    obtain ⟨hcovered, hs⟩ := (apply_first_eq_ok_iff hlength).1 hs
    obtain ⟨-, he⟩ := (apply_last_eq_ok_iff hlength).1 he
    refine ⟨hcovered, ⟨s, hs, (le_iff_slip_le hs).1 hsle⟩,
      ⟨e, he, (le_iff_lt_slip hi hpos he).1 hele⟩, ?_⟩
    intro unit hunit
    obtain ⟨r, hr, hnear⟩ := h.round length unit hlength hunit
    obtain ⟨-, d, hd, hr⟩ := Operation.apply_rounding_eq_ok_iff.1 hr
    obtain ⟨rfl, hrange⟩ := (round_eq_ok_iff hunit).1 hd
    rw [nanos_since_of_localize? hi rfl hr] at hnear
    exact ⟨hrange, r, hr, hnear⟩
  · intro h
    obtain ⟨s, hs, hsle⟩ := h.first
    obtain ⟨e, he, hele⟩ := h.last
    refine ⟨⟨s, (apply_first_eq_ok_iff hlength).2 ⟨h.inRange, hs⟩, (le_iff_slip_le hs).2 hsle⟩,
      ⟨e, (apply_last_eq_ok_iff hlength).2 ⟨h.inRange, he⟩, (le_iff_lt_slip hi hpos he).2 hele⟩, ?_⟩
    intro length' unit hlength' hunit
    obtain rfl : length = length' := Option.some.inj (hlength.symm.trans hlength')
    obtain ⟨hrange, r, hr, hnear⟩ := h.round unit hunit
    rw [← nanos_since_of_localize? hi rfl hr] at hnear
    exact ⟨r, Operation.apply_rounding_eq_ok_iff.2
      ⟨h.inRange, _, (round_eq_ok_iff hunit).2 ⟨rfl, hrange⟩, hr⟩, hnear⟩

/-- The operations by the clock stay within the period where the clocks keep the offset. -/
theorem staysWithin_of_keeps (hlength : p.clockLength? = some length)
    (hi : i.isLeapSecond = false) (hcovered : (z.civil i).InRange)
    (hfirst : z.Keeps i (floorTo length (z.civil i)))
    (hlast : z.Keeps i (ceilTo length (z.civil i)))
    (hround : ∀ unit, roundingLength? unit = some length →
      z.Keeps i (roundTo length (z.civil i)) ∧ (roundTo length (z.civil i)).InRange) :
    StaysWithin start z p i := by
  have hpos := clockLength?_pos hlength
  have hnonneg := Int.emod_nonneg (z.civil i).seconds (b := length) (by omega)
  have hlt := Int.emod_lt_of_pos (z.civil i).seconds (b := length) (by omega)
  obtain ⟨s, hs, hsslip⟩ := hfirst.exists_localize?
  obtain ⟨e, he, heslip⟩ := hlast.exists_localize?
  rw [staysWithin_iff_slipsWithin hlength hi]
  refine ⟨hcovered, ⟨s, hs, by omega⟩, ⟨e, he, by omega⟩, ?_⟩
  intro unit hunit
  obtain ⟨hkeeps, hrange⟩ := hround unit hunit
  obtain ⟨r, hr, hrslip⟩ := hkeeps.exists_localize?
  refine ⟨fun _ => hrange, r, hr, ?_⟩
  rw [hrslip, Int.zero_mul, Int.add_zero]
  exact two_mul_roundTo_sub_le hunit hi

end Period

/-! ## Any zone, any instant -/

/-- From an instant, the operations to the ends of a unit of the clock stay on their sides of
it and rounding stays within half the unit, exactly if the calendar covers what the clocks show and
clock changes do not make what is found slip past the instant, or past half the unit.  In particular
they do where the ends of the period and the rounded time are first shown with the offset of the
instant. -/
theorem clock_operations_within_iff (start : WeekStart) (z : Zone)
    (hlength : p.clockLength? = some length) (hi : i.isLeapSecond = false) :
    (p.StaysWithin start z i ↔ Period.SlipsWithin z length i) ∧
    ((z.civil i).InRange → z.Keeps i (Period.floorTo length (z.civil i)) →
      z.Keeps i (Period.ceilTo length (z.civil i)) →
      (∀ unit, roundingLength? unit = some length →
        z.Keeps i (Period.roundTo length (z.civil i)) ∧
          (Period.roundTo length (z.civil i)).InRange) →
      p.StaysWithin start z i) :=
  ⟨Period.staysWithin_iff_slipsWithin hlength hi, Period.staysWithin_of_keeps hlength hi⟩

/-- Twenty past one on the night on which New York sets its clocks back, for the first
time. -/
theorem clock_operations_within_iff_firstPass :
    Period.hour.clockLength? = some 3600 ∧
      (Instant.ofSeconds 1730611200).isLeapSecond = false ∧
      Period.hour.StaysWithin .monday Zone.newYork (.ofSeconds 1730611200) := by
  have hlength : Period.hour.clockLength? = some 3600 := rfl
  have hi : (Instant.ofSeconds 1730611200).isLeapSecond = false := by decide
  have hwithin := clock_operations_within_iff .monday Zone.newYork hlength hi
  refine ⟨hlength, hi, hwithin.2 (by decide +kernel) ?_ ?_ ?_⟩
  · exact ⟨.ofSeconds 1730610000, by decide +kernel, by decide +kernel⟩
  · exact ⟨⟨⟨1730613599, 999999999, by decide⟩, by decide⟩, by decide +kernel, by decide +kernel⟩
  · intro unit hunit
    exact ⟨⟨.ofSeconds 1730610000, by decide +kernel, by decide +kernel⟩, by decide +kernel⟩

/-- Where clocks are changed the operations can leave the period.  At half past one for the
second time in New York, the hour is said to end before, and rounding to the minute goes
back an hour; at a quarter to three on the morning on which Lord Howe Island leaves out the
first half of that hour, the hour is said to begin after. -/
theorem clock_operations_leave_period :
    (∃ e, (Edge.last.of .hour).apply .monday Zone.newYork (.ofSeconds 1730615400) = .ok e ∧
      e < .ofSeconds 1730615400) ∧
    (∃ r, (Operation.rounding "minute").apply .monday Zone.newYork (.ofSeconds 1730615400) =
        .ok r ∧
      60 * nanosPerSecond < 2 * (r.since (.ofSeconds 1730615400)).nanos.natAbs) ∧
    ∃ s, (Edge.first.of .hour).apply .monday Zone.lordHowe (.ofSeconds 1728143100) = .ok s ∧
      .ofSeconds 1728143100 < s := by
  refine ⟨⟨⟨⟨1730613599, 999999999, by decide⟩, by decide⟩, ?_, by decide⟩,
    ⟨.ofSeconds 1730611800, ?_, by decide⟩, ⟨.ofSeconds 1728144000, ?_, by decide⟩⟩
  · exact (Period.apply_last_eq_ok_iff rfl).2 ⟨by decide +kernel, by decide +kernel⟩
  · refine Operation.apply_rounding_eq_ok_iff.2
      ⟨?_, _, (Period.round_eq_ok_iff rfl).2 ⟨rfl, ?_⟩, ?_⟩ <;> decide +kernel
  · exact (Period.apply_first_eq_ok_iff rfl).2 ⟨by decide +kernel, by decide +kernel⟩

end Almanac
