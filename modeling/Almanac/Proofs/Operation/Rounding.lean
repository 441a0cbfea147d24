import Almanac.Proofs.Operation.Clock
import Almanac.Proofs.Operation.Idempotence

/-!
# Rounding a half up

To cut an instant to a unit of the clock is to go to the start of its period, in every zone.
To round it, where clocks are never changed, is to go to the nearest start of a period, and
from the middle between two to the later one.  The choice is made by whole seconds, but all
units are even, so that it is exact to the nanosecond.

Main definitions:

- `Operation.truncating`: the operation that cuts to a unit.
- `Period.RoundsTo`: the calendar covers what an instant is cut and rounded to.
- `Period.IsNearest`: a start of a period that lies nearest to an instant, a half up.

Main results:

- Theorem `Operation.apply_truncating`: to cut is to go to the start of the period.
- Theorem `Period.roundTo_le_roundTo`: rounding on the wall keeps the order.
- Theorem `Period.RoundsTo.isNearest_iff`: the rounded instant is the only nearest start.
- Theorem `rounding_half_up`: the two operations in zones with one offset.
-/

namespace Almanac

variable {offset : Int} {start : WeekStart} {z : Zone} {p : Period} {length : Nat}
  {unit : String} {c d : Civil} {i j s b x : Instant}

/-! ## Cutting -/

namespace Operation

/-- The operation that cuts to a unit. -/
def truncating (unit : String) : Operation where
  op := "trunc"
  value := unit

/-- To cut to a unit is to go to the start of its period. -/
theorem apply_truncating (hunit : roundingLength? unit = some length)
    (hlength : p.clockLength? = some length) :
    (truncating unit).apply start z i = (Edge.first.of p).apply start z i := by
  rw [apply_of_lookup (lookup_op_of .first p)]
  simp only [apply, truncating, target, trunc, hunit, boundary, lookup_op_of, Period.boundary?,
    hlength, orOutOfRange, String.reduceEq, or_self, false_and, if_false, if_true]

end Operation

/-! ## Rounding on the wall -/

namespace Period

section

variable (hunit : roundingLength? unit = some length)
include hunit

/-- What is rounded is the start of a period. -/
theorem floorTo_roundTo (c : Civil) : floorTo length (roundTo length c) = roundTo length c := by
  apply Civil.ext
  · simp only [floorTo, roundTo]
    rcases roundingLength?_cases hunit with rfl | rfl | rfl
    all_goals
      split <;> omega
  · rfl

/-- The start of a period is rounded already. -/
theorem roundTo_of_floorTo (hc : floorTo length c = c) : roundTo length c = c := by
  have hseconds : c.seconds / length * length = c.seconds := congrArg Civil.seconds hc
  have hnanos : 0 = c.nanos := congrArg Civil.nanos hc
  apply Civil.ext
  · simp only [roundTo, inSecondHalf, decide_eq_true_eq]
    rcases roundingLength?_cases hunit with rfl | rfl | rfl
    all_goals
      split <;> omega
  · exact hnanos

/-- Rounding keeps the order. -/
theorem roundTo_le_roundTo (h : c ≤ d) : roundTo length c ≤ roundTo length d := by
  rw [Civil.le_iff] at h ⊢
  simp only [roundTo, inSecondHalf, decide_eq_true_eq]
  rcases roundingLength?_cases hunit with rfl | rfl | rfl
  all_goals
    split <;> split <;> omega

/-- Two starts of periods that lie nearest to one time are the same. -/
theorem eq_of_near {e : Civil} (hd : floorTo length d = d) (he : floorTo length e = e)
    (hdlower : -(length * nanosPerSecond : Int) ≤ 2 * (c.toNanos - d.toNanos))
    (hdupper : 2 * (c.toNanos - d.toNanos) < length * nanosPerSecond)
    (helower : -(length * nanosPerSecond : Int) ≤ 2 * (c.toNanos - e.toNanos))
    (heupper : 2 * (c.toNanos - e.toNanos) < length * nanosPerSecond) : d = e := by
  have hdseconds : d.seconds / length * length = d.seconds := congrArg Civil.seconds hd
  have heseconds : e.seconds / length * length = e.seconds := congrArg Civil.seconds he
  have hdnanos : 0 = d.nanos := congrArg Civil.nanos hd
  have henanos : 0 = e.nanos := congrArg Civil.nanos he
  simp only [Civil.toNanos, nanosPerSecond] at hdlower hdupper helower heupper
  apply Civil.ext
  · rcases roundingLength?_cases hunit with rfl | rfl | rfl
    all_goals omega
  · omega

end

/-! ## Instants in a zone with one offset -/

/-- The calendar covers what the clocks show at an instant `i`, and what `i` is cut and rounded
to: `s` is the start of its period, and `b` is what `i` is rounded to. -/
structure RoundsTo (z : Zone) (length : Nat) (i s b : Instant) : Prop where
  covered : (z.civil i).InRange
  below : z.civil s = floorTo length (z.civil i)
  rounded : z.civil b = roundTo length (z.civil i)
  inRange : (z.civil b).InRange

/-- A start of a period lies at most half a unit after an instant, or less than half a unit
before it. -/
structure IsNearest (start : WeekStart) (z : Zone) (p : Period) (length : Nat) (i b : Instant) :
    Prop where
  starts : (Edge.first.of p).apply start z b = .ok b
  lower : -(length * nanosPerSecond : Int) ≤ 2 * (i.since b).nanos
  upper : 2 * (i.since b).nanos < length * nanosPerSecond

/-- The start of a period on the wall begins with a full second. -/
theorem isLeapSecond_of_floorTo (hi : floorTo length (z.civil i) = z.civil i) :
    i.isLeapSecond = false := by
  have hnanos : 0 = i.utc.nanos := congrArg Civil.nanos hi
  exact Civil.isLeapSecond_eq_false_iff.2 (by rw [← hnanos]; decide)

/-- What begins a unit of the clock is not moved again. -/
theorem floorTo_floorTo (hlength : p.clockLength? = some length) (c : Civil) :
    floorTo length (floorTo length c) = floorTo length c := by
  have hfirst : p.boundary? .monday .first c = some (floorTo length c) := by
    simp only [boundary?, hlength]
  simpa only [boundary?, hlength, Option.some.injEq] using boundary?_boundary? hfirst

/-- What is rounded is the start of a period on the wall. -/
theorem RoundsTo.floorTo_civil (hunit : roundingLength? unit = some length)
    (h : RoundsTo z length i s b) : floorTo length (z.civil b) = z.civil b := by
  rw [h.rounded, floorTo_roundTo hunit]

/-- The period of a covered instant starts on the same date, and so at a covered one. -/
theorem RoundsTo.inRange_below (hlength : p.clockLength? = some length)
    (h : RoundsTo z length i s b) : (z.civil s).InRange := by
  rw [h.below, Civil.InRange, (date_of_clockLength? hlength _).1]
  exact h.covered

section Fixed

variable (hz : Zone.fixed? offset = some z)
include hz

/-- Away from leap seconds a span is the difference of what the clock shows. -/
theorem nanos_since_of_fixed (hi : i.isLeapSecond = false) (hj : j.isLeapSecond = false) :
    (i.since j).nanos = (z.civil i).toNanos - (z.civil j).toNanos := by
  rw [Instant.since_nanos hi hj]
  simp only [Instant.nanos, Civil.toNanos, Zone.seconds_civil hz, Zone.nanos_civil, Int.add_mul]
  omega

/-- The start of a period on the wall is where the operation to the start leads from all of the
period, itself included. -/
theorem apply_first_of_civil_eq (hlength : p.clockLength? = some length)
    (hs : z.civil s = floorTo length (z.civil i)) (hcovered : (z.civil i).InRange) :
    (Edge.first.of p).apply start z i = .ok s := by
  rw [apply_first_eq_ok_iff hlength, ← hs]
  exact ⟨hcovered, Zone.localize?_civil hz s⟩

/-- The instant that has the rounded civil time is what is rounded to. -/
theorem apply_rounding_of_civil_eq (hunit : roundingLength? unit = some length)
    (hb : z.civil b = roundTo length (z.civil i)) (hcovered : (z.civil i).InRange)
    (hrange : (z.civil b).InRange) : (Operation.rounding unit).apply start z i = .ok b :=
  Operation.apply_rounding_eq_ok_iff.2 ⟨hcovered, z.civil b,
    (round_eq_ok_iff hunit).2 ⟨hb, fun _ => hrange⟩, Zone.localize?_civil hz b⟩

section Nearest

variable (hunit : roundingLength? unit = some length) (hlength : p.clockLength? = some length)
  (hi : i.isLeapSecond = false)
include hunit hlength hi

/-- From where the operation to the start leads nowhere else, a period starts on the wall, if
the calendar covers the start of a period that begins so near. -/
theorem IsNearest.floorTo_civil (hs : z.civil s = floorTo length (z.civil i))
    (hx : IsNearest start z p length i x) : floorTo length (z.civil x) = z.civil x := by
  have hmeant := ((apply_first_eq_ok_iff hlength).1 hx.starts).2
  rcases Zone.civil_of_localize?_cases hmeant with hshown | ⟨hlater, -⟩
  · exact hshown.symm
  · -- No instant would have the start itself, but `s` is no later.
    have hnanos : x.utc.nanos = 0 := Zone.nanos_of_localize? rfl hmeant
    have hleap : x.isLeapSecond = false :=
      Civil.isLeapSecond_eq_false_iff.2 (by rw [hnanos]; decide)
    have hseconds := Civil.seconds_add_hour (floorTo length (z.civil x))
    rw [← hlater] at hseconds
    have hupper := hx.upper
    rw [nanos_since_of_fixed hz hi hleap] at hupper
    have hle : z.civil s ≤ floorTo length (z.civil x) := by
      rw [hs, Civil.le_iff]
      simp only [floorTo, Civil.toNanos, Zone.nanos_civil, hnanos, nanosPerSecond]
        at hseconds hupper ⊢
      rcases roundingLength?_cases hunit with rfl | rfl | rfl
      all_goals omega
    exact (Zone.civil_of_localize? hz rfl hle hmeant).symm

/-- What an instant is rounded to is the only nearest start of a period. -/
theorem RoundsTo.isNearest_iff (h : RoundsTo z length i s b) :
    IsNearest start z p length i x ↔ x = b := by
  have hb := h.floorTo_civil hunit
  have hbounds := roundTo_bounds hunit (c := z.civil i) hi
  rw [← h.rounded] at hbounds
  constructor
  · intro hx
    have hstart := hx.floorTo_civil hz hunit hlength hi h.below
    have hspan := nanos_since_of_fixed hz hi (isLeapSecond_of_floorTo hstart)
    have hcivil : z.civil x = z.civil b :=
      eq_of_near hunit hstart hb (hspan ▸ hx.lower) (hspan ▸ hx.upper) hbounds.1 hbounds.2
    have hfound := Zone.localize?_civil hz x
    rw [hcivil, Zone.localize?_civil hz b] at hfound
    exact (Option.some.inj hfound).symm
  · rintro rfl
    rw [← nanos_since_of_fixed hz hi (isLeapSecond_of_floorTo hb)] at hbounds
    exact ⟨apply_first_of_civil_eq hz hlength hb.symm h.inRange, hbounds.1, hbounds.2⟩

end Nearest

end Fixed

end Period

/-! ## All instants -/

/-- Rounding in a zone with one offset.  In every zone, to cut an instant to a unit is to go to
the start of its period.  Where the calendar covers what the clocks show and the results, an
instant is rounded to the one start of a period that lies nearest to it, of two the later one;
neither operation leads anywhere else when it is applied again; and rounding keeps the order of
instants. -/
theorem rounding_half_up (hz : Zone.fixed? offset = some z) (start : WeekStart)
    (hunit : roundingLength? unit = some length) (hlength : p.clockLength? = some length) :
    (∀ i, (Operation.truncating unit).apply start z i = (Edge.first.of p).apply start z i) ∧
      ∀ i s b, i.isLeapSecond = false → Period.RoundsTo z length i s b →
        (Operation.truncating unit).apply start z i = .ok s ∧
        (Operation.rounding unit).apply start z i = .ok b ∧
        (∀ x, Period.IsNearest start z p length i x ↔ x = b) ∧
        (Operation.truncating unit).apply start z s = .ok s ∧
        (Operation.rounding unit).apply start z b = .ok b ∧
        ∀ j t d, j.isLeapSecond = false → Period.RoundsTo z length j t d → i ≤ j → b ≤ d := by
  have htruncating (i : Instant) :
      (Operation.truncating unit).apply start z i = (Edge.first.of p).apply start z i :=
    Operation.apply_truncating hunit hlength
  refine ⟨htruncating, ?_⟩
  intro i s b hi h
  have hs : z.civil s = Period.floorTo length (z.civil s) := by
    rw [h.below, Period.floorTo_floorTo hlength]
  have hb : z.civil b = Period.roundTo length (z.civil b) :=
    (Period.roundTo_of_floorTo hunit (h.floorTo_civil hunit)).symm
  rw [htruncating, htruncating]
  refine ⟨Period.apply_first_of_civil_eq hz hlength h.below h.covered,
    Period.apply_rounding_of_civil_eq hz hunit h.rounded h.covered h.inRange,
    fun x => h.isNearest_iff hz hunit hlength hi,
    Period.apply_first_of_civil_eq hz hlength hs (h.inRange_below hlength),
    Period.apply_rounding_of_civil_eq hz hunit hb h.inRange h.inRange, ?_⟩
  intro j t d hj hd hle
  rw [← Zone.civil_le_civil_iff hz] at hle ⊢
  rw [h.rounded, hd.rounded]
  exact Period.roundTo_le_roundTo hunit hle

/-- Noon on the last day of 2024, five hours behind UTC. -/
def lastNoon : Instant :=
  Instant.ofSeconds 1735664400

/-- A nanosecond before it. -/
def beforeLastNoon : Instant :=
  ⟨⟨1735664399, 999999999, TimeOfDay.endOfDay.nanos_lt⟩, by decide⟩

/-- The start of that day. -/
def startOfLastDay : Instant :=
  Instant.ofSeconds 1735621200

/-- The start of the day after it. -/
def startOf2025 : Instant :=
  Instant.ofSeconds 1735707600

/-- Noon of the last day of a year is rounded into the next one, and the moment before is not. -/
theorem rounding_half_up_newYear :
    ∃ z, Zone.fixed? (-18000) = some z ∧
      (Operation.truncating "").apply .monday z lastNoon = .ok startOfLastDay ∧
      (Operation.rounding "").apply .monday z beforeLastNoon = .ok startOfLastDay ∧
      (Operation.rounding "").apply .monday z lastNoon = .ok startOf2025 ∧
      (∀ x, Period.IsNearest .monday z .day 86400 lastNoon x ↔ x = startOf2025) ∧
      startOfLastDay ≤ startOf2025 := by
  have hz : Zone.fixed? (-18000) =
      some { name := "-05:00"
             initial := { offset := -18000, abbreviation := "-05:00" }
             transitions := [] } := by decide +kernel
  have hbefore : Period.RoundsTo
      { name := "-05:00"
        initial := { offset := -18000, abbreviation := "-05:00" }
        transitions := [] } 86400 beforeLastNoon startOfLastDay startOfLastDay :=
    { covered := by decide +kernel
      below := by decide +kernel
      rounded := by decide +kernel
      inRange := by decide +kernel }
  have hnoon : Period.RoundsTo
      { name := "-05:00"
        initial := { offset := -18000, abbreviation := "-05:00" }
        transitions := [] } 86400 lastNoon startOfLastDay startOf2025 :=
    { covered := by decide +kernel
      below := by decide +kernel
      rounded := by decide +kernel
      inRange := by decide +kernel }
  have hunit : roundingLength? "" = some 86400 := rfl
  obtain ⟨-, hround⟩ := rounding_half_up (p := .day) hz .monday hunit rfl
  obtain ⟨-, hdown, -, -, -, hordered⟩ := hround _ _ _ (by decide) hbefore
  obtain ⟨hcut, hup, hnearest, -⟩ := hround _ _ _ (by decide) hnoon
  exact ⟨_, hz, hcut, hdown, hup, hnearest, hordered _ _ _ (by decide) hnoon (by decide)⟩

end Almanac
