import Almanac.Proofs.Zone.Localize

/-!
# Zones with one offset

In a zone with one offset every civil time is had by one instant at most, and it is found
by taking the offset away.  Only at the first hour of the calendar can a civil time that
no instant has be taken for another, one hour later.

Main results:

- Theorem `Zone.civil_le_civil_iff`: civil times are ordered as the instants are.
- Theorem `Zone.earliest?_eq_some_iff_of_fixed`, `Zone.localize?_civil`: from a civil time
  back to its instant.
- Theorem `Zone.civil_of_localize?`: what is found has the civil time that was asked for,
  if an instant is known at or before it.
-/

namespace Almanac.Zone

variable {offset : Int} {z : Zone} {c : Civil} {i j : Instant}

section

variable (hz : fixed? offset = some z)
include hz

/-- A zone with one offset has no transitions. -/
theorem exists_regime_of_fixed : ∃ regime : Regime, regime.offset = offset ∧
    z = { name := regime.abbreviation, initial := regime, transitions := [] } := by
  obtain ⟨regime, hregime, rfl⟩ := Option.map_eq_some_iff.1 hz
  unfold offsetRegime? at hregime
  split at hregime
  · cases hregime
    exact ⟨_, rfl, rfl⟩
  · cases hregime

/-- A zone with one offset has it always. -/
theorem offsetAt_of_fixed (unix : Int) : z.offsetAt unix = offset := by
  obtain ⟨regime, hoffset, rfl⟩ := exists_regime_of_fixed hz
  exact hoffset

/-- The clock is ahead of UTC by the one offset. -/
theorem seconds_civil (i : Instant) : (z.civil i).seconds = i.utc.seconds + offset := by
  rw [civil, offsetAt_of_fixed hz]

/-- Civil times are ordered as the instants are. -/
theorem civil_le_civil_iff : z.civil i ≤ z.civil j ↔ i ≤ j := by
  rw [Civil.le_iff, Instant.le_iff, seconds_civil hz, seconds_civil hz, nanos_civil, nanos_civil]
  omega

/-- Every reading is shown once. -/
theorem preimages_of_fixed (seconds : Int) : z.preimages seconds = [seconds - offset] := by
  obtain ⟨regime, rfl, rfl⟩ := exists_regime_of_fixed hz
  have hdups : [regime.offset].eraseDups = [regime.offset] := rfl
  simp [preimages, offsets, offsetAt, regimeAt, regimeAmong, hdups]

/-- The one instant of a reading, if it is on the calendar. -/
theorem earliest?_of_fixed (c : Civil) :
    z.earliest? c = Instant.ofUtc? { c with seconds := c.seconds - offset } := by
  rw [earliest?, preimages_of_fixed hz]
  rfl

/-- The instant with a civil time is found by taking the offset away. -/
theorem earliest?_eq_some_iff_of_fixed : z.earliest? c = some i ↔ z.civil i = c := by
  rw [earliest?_of_fixed hz, Instant.ofUtc?_eq_some_iff, Civil.ext_iff, Civil.ext_iff,
    seconds_civil hz, nanos_civil]
  simp only
  omega

/-- Every instant is found again from its civil time. -/
theorem localize?_civil (i : Instant) : z.localize? (z.civil i) = some i := by
  rw [localize?, (earliest?_eq_some_iff_of_fixed hz).2 rfl]

/-- What is found has the civil time that was asked for, if an instant has an earlier one.
Else the civil time may lie before the first instant of all, and one hour later not. -/
theorem civil_of_localize? (hc : c.isLeapSecond = false) (hle : z.civil j ≤ c)
    (h : z.localize? c = some i) : z.civil i = c := by
  unfold localize? at h
  split at h
  · rename_i e he
    cases h
    exact (earliest?_eq_some_iff_of_fixed hz).1 he
  · rename_i hnone
    obtain ⟨later, hlater, hi⟩ := Option.bind_eq_some_iff.1 h
    have hi := (earliest?_eq_some_iff_of_fixed hz).1 hi
    have hlater : (z.civil i).seconds = c.seconds + 3600 := by
      rw [Civil.add?, Civil.add_of_isLeapSecond_eq_false hc, Civil.inRange?] at hlater
      split at hlater
      · cases hlater
        rw [hi]
        have hnanos := Civil.isLeapSecond_eq_false_iff.1 hc
        simp only [Civil.ofNanos, Civil.toNanos, Span.hour, nanosPerSecond] at hnanos ⊢
        omega
      · cases hlater
    rw [seconds_civil hz] at hlater
    have hj := Civil.le_iff.1 hle
    rw [seconds_civil hz] at hj
    -- The instant with the civil time lies between two instants.
    have hrange : Civil.InRange { c with seconds := c.seconds - offset } :=
      Civil.inRange_of_le j.inRange i.inRange (by simp only; omega) (by simp only; omega)
    rw [earliest?_of_fixed hz, Instant.ofUtc?, dif_pos hrange] at hnone
    cases hnone

end

/-! ## No offset -/

section

variable (hz : ∀ unix, z.offsetAt unix = 0)
include hz

/-- Without an offset, the civil time of an instant is the one in UTC. -/
theorem civil_of_offset_zero (i : Instant) : z.civil i = i.utc := by
  apply Civil.ext
  · rw [seconds_civil_eq, hz, Int.add_zero, Instant.unix]
  · exact nanos_civil z i

/-- Without an offset, the calendar covers all that the clocks show. -/
theorem inRange_civil_of_offset_zero (i : Instant) : (z.civil i).InRange := by
  rw [civil_of_offset_zero hz]
  exact i.inRange

/-- Without an offset, what is meant by a civil time is the instant that has it in UTC. -/
theorem localize?_of_offset_zero (hc : c.InRange) : z.localize? c = some ⟨c, hc⟩ := by
  apply localize?_of_earliest?
  rw [earliest?_eq_some_iff, civil_of_offset_zero hz]
  refine ⟨rfl, ?_⟩
  intro unix hunix
  rw [hz, Int.add_zero] at hunix
  exact Int.le_of_eq hunix.symm

end

end Almanac.Zone
