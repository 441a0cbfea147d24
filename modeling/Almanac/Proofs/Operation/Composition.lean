import Almanac.Proofs.Operation.WallClock

/-!
# Shifts one after the other

In a zone with one offset, two shifts by a unit are one shift by the sum of their amounts, and two
shifts by units of one length lead to the same instant in either order.  There are two exceptions.
Where a month is too short for a day, the first shift cuts the day, and the second does not bring it
back.  And in the first hour of the calendar a shift by days or months can lead an hour past the
civil time that was asked for, which no instant has, as if clocks had skipped it; so we tell apart
whether a shift lands on that civil time or not.

Main definitions:

- `Period.inMonths`: the units that are counted in months.
- `Zone.ShiftsTo`: that a shift leads from one instant to another.
- `Zone.Lands`: that the clocks have moved by the units asked for.
- `Zone.EndsAt`: what a zone makes of the civil time at which a shift ends.

Main results:

- Theorems `Civil.SecondsAfter.add_iff`, `Civil.MonthsAfter.add_iff`, `Period.Moves.add_iff`: moves
  of civil times compose.
- Theorem `Zone.shiftsTo_iff`: a shift moves the civil time, and then asks the zone.
- Theorem `Zone.EndsAt.unique`: only one instant is meant by a civil time.
- Theorem `Zone.ShiftsTo.ne_of_not_lands`: a gained hour is not lost again.
- Theorem `shifts_compose`: shifts in zones with one offset.
-/

namespace Almanac

variable {z : Zone} {p q : Period} {c d e : Civil} {i r s t v : Instant} {a b m n offset : Int}

/-! ## Moves of civil times -/

/-- Two shifts by months are one, if the day is not clamped between them. -/
theorem Date.MonthsAfter.add_iff {d e f : Date} (h : d.MonthsAfter m e) (hday : e.day = d.day) :
    e.MonthsAfter n f ↔ d.MonthsAfter (m + n) f := by
  have hmonth := h.monthNumber
  constructor
  · intro hf
    exact ⟨by rw [hf.monthNumber]; omega, by rw [hf.day, hday]⟩
  · intro hf
    exact ⟨by rw [hf.monthNumber]; omega, by rw [hf.day, hday]⟩

theorem Date.monthsAfter_zero (d : Date) : d.MonthsAfter 0 d := by
  have hday := d.day_le
  refine ⟨by omega, ?_⟩
  rw [daysInMonth_eq_monthLength]
  omega

namespace Civil

/-- Two moves by seconds are one. -/
theorem SecondsAfter.add_iff (h : c.SecondsAfter m d) :
    d.SecondsAfter n e ↔ c.SecondsAfter (m + n) e := by
  have hseconds := h.seconds
  constructor
  · intro he
    exact ⟨by rw [he.seconds]; omega, he.nanos.trans h.nanos⟩
  · intro he
    exact ⟨by rw [he.seconds]; omega, he.nanos.trans h.nanos.symm⟩

/-- Two moves by months are one, if the first keeps the day of the month. -/
theorem MonthsAfter.add_iff (h : c.MonthsAfter m d) (hday : d.date.day = c.date.day) :
    d.MonthsAfter n e ↔ c.MonthsAfter (m + n) e := by
  constructor
  · intro he
    exact ⟨(h.date.add_iff hday).1 he.date, he.time.trans h.time⟩
  · intro he
    exact ⟨(h.date.add_iff hday).2 he.date, he.time.trans h.time.symm⟩

/-- The first moment of the calendar is the first second of its first day. -/
theorem first_seconds_le (hc : c.InRange) : first.seconds ≤ c.seconds := by
  have hfirst : first.seconds = Date.minDay * 86400 := by decide
  simp only [InRange, Date.InRange, date, secondsPerDay] at hc
  omega

end Civil

namespace Period

/-- The units that are counted in months, and so differ in length. -/
def inMonths : Period → Bool
  | month | quarter | year => true
  | _ => false

/-- A unit of one length is a number of seconds. -/
theorem exists_moves_iff_secondsAfter (hp : p.inMonths = false) :
    ∃ length : Int, ∀ amount c d,
      p.Moves amount c d ↔ c.SecondsAfter (amount * length) d := by
  cases p with
  | second => exact ⟨1, fun amount c d => by rw [Int.mul_one]; rfl⟩
  | minute => exact ⟨60, fun _ _ _ => Iff.rfl⟩
  | hour => exact ⟨3600, fun _ _ _ => Iff.rfl⟩
  | day => exact ⟨86400, fun _ _ _ => Iff.rfl⟩
  | week => exact ⟨604800, fun _ _ _ => Iff.rfl⟩
  | _ => cases hp

/-- A longer unit is a number of months. -/
theorem exists_moves_iff_monthsAfter (hp : p.inMonths = true) :
    ∃ months : Int, ∀ amount c d,
      p.Moves amount c d ↔ c.MonthsAfter (amount * months) d := by
  cases p with
  | month => exact ⟨1, fun amount c d => by rw [Int.mul_one]; rfl⟩
  | quarter => exact ⟨3, fun _ _ _ => Iff.rfl⟩
  | year => exact ⟨12, fun _ _ _ => Iff.rfl⟩
  | _ => cases hp

/-- Two shifts by the same amount from one reading lead to the same reading. -/
theorem Moves.unique (hd : p.Moves a c d) (he : p.Moves a c e) : d = e := by
  obtain ⟨only, honly⟩ := p.exists_moves_iff a c
  rw [(honly d).1 hd, (honly e).1 he]

/-- A shift by nothing stays where it is. -/
theorem moves_zero (p : Period) (c : Civil) : p.Moves 0 c c := by
  cases hp : p.inMonths with
  | false =>
      obtain ⟨length, hlength⟩ := exists_moves_iff_secondsAfter hp
      rw [hlength, Int.zero_mul]
      exact ⟨(Int.add_zero _).symm, rfl⟩
  | true =>
      obtain ⟨months, hmonths⟩ := exists_moves_iff_monthsAfter hp
      rw [hmonths, Int.zero_mul]
      exact ⟨c.date.monthsAfter_zero, rfl⟩

/-- Two moves by a unit are one, if the first one by months keeps the day of the month. -/
theorem Moves.add_iff (h : p.Moves a c d)
    (hday : p.inMonths = true → d.date.day = c.date.day) :
    p.Moves b d e ↔ p.Moves (a + b) c e := by
  cases hp : p.inMonths with
  | false =>
      obtain ⟨length, hlength⟩ := exists_moves_iff_secondsAfter hp
      rw [hlength] at h
      rw [hlength, hlength, Int.add_mul]
      exact h.add_iff
  | true =>
      obtain ⟨months, hmonths⟩ := exists_moves_iff_monthsAfter hp
      rw [hmonths] at h
      rw [hmonths, hmonths, Int.add_mul]
      exact h.add_iff (hday hp)

/-- The units of the calendar move by whole days. -/
theorem Moves.seconds_emod (hp : p.elapses = false) (h : p.Moves a c d) :
    d.seconds % 86400 = c.seconds % 86400 := by
  have hwall := Civil.seconds_sub_of_time_eq (time_of_moves hp h)
  simp only [secondsPerDay] at hwall
  omega

end Period

/-! ## Shifts in zones with one offset -/

namespace Zone

/-- A shift leads from `i` to `r`, and the civil time that it moves is one of the calendar. -/
structure ShiftsTo (z : Zone) (amount : Int) (p : Period) (i r : Instant) : Prop where
  covered : p.elapses = false → (z.civil i).InRange
  leads : shift z i amount p.letter = .ok r

/-- From `i` to `r` clocks move by the units asked for. -/
def Lands (z : Zone) (amount : Int) (p : Period) (i r : Instant) : Prop :=
  p.Moves amount (z.civil i) (z.civil r)

/-- A shift that ends at the civil time `d` leads to `r`: units of the calendar need a time that
the calendar covers, and it is for the zone to say what is meant by it. -/
def EndsAt (z : Zone) (p : Period) (d : Civil) (r : Instant) : Prop :=
  match p.elapses with
  | true => z.civil r = d
  | false => d.InRange ∧ z.localize? d = some r

section

variable (hz : fixed? offset = some z)
include hz

/-- In a zone with one offset, seconds pass on the clock as they do in UTC. -/
theorem secondsAfter_civil_iff :
    (z.civil i).SecondsAfter n (z.civil r) ↔ i.utc.SecondsAfter n r.utc := by
  have hi := seconds_civil hz i
  have hr := seconds_civil hz r
  constructor
  · intro h
    have hseconds := h.seconds
    exact ⟨by omega, h.nanos⟩
  · intro h
    have hseconds := h.seconds
    exact ⟨by omega, h.nanos⟩

/-- A shift moves the civil time, and leads to what the zone makes of it. -/
theorem shiftsTo_iff (hi : i.isLeapSecond = false) :
    z.ShiftsTo a p i r ↔
      (p.elapses = false → (z.civil i).InRange) ∧
        ∃ d, p.Moves a (z.civil i) d ∧ z.EndsAt p d r := by
  have hshift : z.ShiftsTo a p i r ↔
      (p.elapses = false → (z.civil i).InRange) ∧ shift z i a p.letter = .ok r :=
    ⟨fun h => ⟨h.covered, h.leads⟩, fun h => ⟨h.1, h.2⟩⟩
  rw [hshift]
  refine and_congr_right ?_
  intro hcovered
  cases hp : p.elapses with
  | true =>
      have hlength : p.inMonths = false := by cases p <;> cases hp <;> rfl
      obtain ⟨length, hmoves⟩ := Period.exists_moves_iff_secondsAfter hlength
      rw [shift_eq_ok_iff_of_elapses hi hp, hmoves, ← secondsAfter_civil_iff hz, ← hmoves]
      simp only [EndsAt, hp, exists_eq_right']
  | false =>
      rw [shift_eq_ok_iff_of_calendar hi (hcovered hp) hp]
      simp only [EndsAt, hp, and_assoc]

/-- What is found has the civil time at which the shift ends, or if no instant does, the one an
hour later. -/
theorem EndsAt.cases (h : z.EndsAt p d r) :
    z.civil r = d ∨
      p.elapses = false ∧ (∀ j, z.civil j ≠ d) ∧ z.civil r = d.add Span.hour := by
  unfold EndsAt at h
  split at h
  · exact .inl h
  · rename_i hp
    rcases localize?_eq_some_iff.1 h.2 with hfound | ⟨hnone, hlater, -⟩
    · exact .inl ((earliest?_eq_some_iff_of_fixed hz).1 hfound)
    · refine .inr ⟨hp, ?_, (earliest?_eq_some_iff_of_fixed hz).1 hlater⟩
      intro j hj
      rw [(earliest?_eq_some_iff_of_fixed hz).2 hj] at hnone
      cases hnone

/-- An instant is what is meant by its civil time, if the calendar covers that. -/
theorem endsAt_civil (h : p.elapses = false → (z.civil r).InRange) :
    z.EndsAt p (z.civil r) r := by
  unfold EndsAt
  split
  · rfl
  · rename_i hp
    exact ⟨h hp, localize?_civil hz r⟩

/-- A shift by which the clocks move from one time of the calendar to another leads there. -/
theorem shiftsTo_of_lands (hi : i.isLeapSecond = false)
    (hcovered : p.elapses = false → (z.civil i).InRange ∧ (z.civil r).InRange)
    (h : z.Lands a p i r) : z.ShiftsTo a p i r :=
  (shiftsTo_iff hz hi).2
    ⟨fun hp => (hcovered hp).1, _, h, endsAt_civil hz fun hp => (hcovered hp).2⟩

/-- In a zone with one offset, an instant is known by its civil time. -/
theorem eq_of_civil_eq (h : z.civil s = z.civil t) : s = t := by
  have hs := localize?_civil hz s
  rw [h, localize?_civil hz t] at hs
  exact (Option.some.inj hs).symm

/-- Shifts that end at the same civil time lead to the same instant. -/
theorem EndsAt.unique (hs : z.EndsAt p d s) (ht : z.EndsAt q d t) : s = t := by
  rcases hs.cases hz with hs | ⟨-, hskipped, hs⟩ <;>
    rcases ht.cases hz with ht | ⟨-, hskipped', ht⟩
  · exact eq_of_civil_eq hz (hs.trans ht.symm)
  · exact absurd hs (hskipped' s)
  · exact absurd ht (hskipped t)
  · exact eq_of_civil_eq hz (hs.trans ht.symm)

/-- A civil time that no instant has lies before the calendar, if an instant has the one an hour
later. -/
theorem unix_lt_of_civil_ne (hskipped : ∀ j, z.civil j ≠ d) (hr : z.civil r = d.add Span.hour) :
    r.unix < Civil.first.seconds + 3600 := by
  have hlater := congrArg Civil.seconds hr
  rw [Civil.seconds_add_hour, seconds_civil hz] at hlater
  apply Int.not_le.1
  intro hle
  simp only [Instant.unix] at hle
  have hcovered : Civil.InRange { d with seconds := d.seconds - offset } :=
    Civil.inRange_of_le (show Civil.first.InRange by decide) r.inRange (by simp only; omega)
      (by simp only; omega)
  refine hskipped ⟨_, hcovered⟩ (Civil.ext ?_ rfl)
  rw [seconds_civil hz]
  simp only
  omega

/-! ### Where a shift lands -/

section

variable (hi : i.isLeapSecond = false) (hr : z.ShiftsTo a p i r)
include hi hr

/-- No shift leads into a leap second. -/
theorem ShiftsTo.isLeapSecond_eq_false : r.isLeapSecond = false := by
  have hfraction := Civil.isLeapSecond_eq_false_iff.1 hi
  obtain ⟨-, d, hmoves, hends⟩ := (shiftsTo_iff hz hi).1 hr
  have hd : d.nanos = i.utc.nanos := (Period.nanos_of_moves hmoves).trans (nanos_civil z i)
  apply Civil.isLeapSecond_eq_false_iff.2
  rw [← nanos_civil z]
  rcases hends.cases hz with hcivil | ⟨-, -, hcivil⟩
  · rwa [hcivil, hd]
  · rw [hcivil, Civil.nanos_add_hour]
    exact Nat.mod_lt _ (by decide)

/-- A shift that lands ends at a civil time that the calendar covers. -/
theorem ShiftsTo.endsAt_of_lands (hland : z.Lands a p i r) : z.EndsAt p (z.civil r) r := by
  obtain ⟨-, d, hmoves, hends⟩ := (shiftsTo_iff hz hi).1 hr
  rwa [← hmoves.unique hland]

/-- What a shift by calendar units leads to is covered by the calendar. -/
theorem ShiftsTo.inRange_of_lands (hland : z.Lands a p i r) (hp : p.elapses = false) :
    (z.civil r).InRange := by
  have hends := hr.endsAt_of_lands hz hi hland
  simp only [EndsAt, hp] at hends
  exact hends.1

/-- After a shift that lands and keeps the day of the month, a shift by the same unit leads where a
single shift by both amounts does. -/
theorem ShiftsTo.add_iff (hland : z.Lands a p i r)
    (hday : p.inMonths = true → (z.civil r).date.day = (z.civil i).date.day) :
    z.ShiftsTo b p r s ↔ z.ShiftsTo (a + b) p i s := by
  have hcovered : (p.elapses = false → (z.civil r).InRange) ↔
      (p.elapses = false → (z.civil i).InRange) :=
    ⟨fun _ => hr.covered, fun _ => hr.inRange_of_lands hz hi hland⟩
  have hmoves (d : Civil) : p.Moves b (z.civil r) d ↔ p.Moves (a + b) (z.civil i) d :=
    Period.Moves.add_iff hland hday
  rw [shiftsTo_iff hz (hr.isLeapSecond_eq_false hz hi), shiftsTo_iff hz hi, hcovered]
  simp only [hmoves]

/-- And the shift by the amount taken back leads back. -/
theorem ShiftsTo.neg (hland : z.Lands a p i r)
    (hday : p.inMonths = true → (z.civil r).date.day = (z.civil i).date.day) :
    z.ShiftsTo (-a) p r i := by
  have hback : z.Lands (-a) p r i := by
    rw [Lands, Period.Moves.add_iff hland hday, Int.add_right_neg]
    exact p.moves_zero _
  refine shiftsTo_of_lands hz (hr.isLeapSecond_eq_false hz hi) ?_ hback
  intro hp
  exact ⟨hr.inRange_of_lands hz hi hland hp, hr.covered hp⟩

/-- Shifts by units of one length that land lead to the same instant in either order. -/
theorem ShiftsTo.comm (hp : p.inMonths = false) (hq : q.inMonths = false)
    (hland : z.Lands a p i r) (hv : z.ShiftsTo b q i v) (hland' : z.Lands b q i v)
    (hs : z.ShiftsTo b q r s) (ht : z.ShiftsTo a p v t) : s = t := by
  obtain ⟨length, hlength⟩ := Period.exists_moves_iff_secondsAfter hp
  obtain ⟨length', hlength'⟩ := Period.exists_moves_iff_secondsAfter hq
  obtain ⟨-, d, hd, hs⟩ := (shiftsTo_iff hz (hr.isLeapSecond_eq_false hz hi)).1 hs
  obtain ⟨-, e, he, ht⟩ := (shiftsTo_iff hz (hv.isLeapSecond_eq_false hz hi)).1 ht
  have hd := ((hlength _ _ _).1 hland).add_iff.1 ((hlength' _ _ _).1 hd)
  have he := ((hlength' _ _ _).1 hland').add_iff.1 ((hlength _ _ _).1 he)
  rw [Int.add_comm] at he
  obtain ⟨only, honly⟩ := (z.civil i).exists_secondsAfter_iff (a * length + b * length')
  obtain rfl : d = e := ((honly d).1 hd).trans ((honly e).1 he).symm
  exact hs.unique hz ht

/-! ### Where it does not -/

/-- A shift that does not land leads to the first hour of the calendar, an hour past the civil time
that was asked for. -/
theorem ShiftsTo.late_of_not_lands (hnot : ¬ z.Lands a p i r) :
    p.elapses = false ∧ r.unix < Civil.first.seconds + 3600 ∧
      (z.civil r).seconds % 86400 = ((z.civil i).seconds + 3600) % 86400 := by
  obtain ⟨-, d, hmoves, hends⟩ := (shiftsTo_iff hz hi).1 hr
  rcases hends.cases hz with rfl | ⟨hp, hskipped, hlater⟩
  · exact absurd hmoves hnot
  · refine ⟨hp, unix_lt_of_civil_ne hz hskipped hlater, ?_⟩
    have hwall := hmoves.seconds_emod hp
    rw [hlater, Civil.seconds_add_hour]
    omega

/-- Where a shift does not land, no second shift by the same unit leads where a single shift by both
amounts does. -/
theorem ShiftsTo.ne_of_not_lands (hnot : ¬ z.Lands a p i r) (hb : b ≠ 0)
    (hs : z.ShiftsTo b p r s) (ht : z.ShiftsTo (a + b) p i t) : s ≠ t := by
  rintro rfl
  obtain ⟨hp, hfirst, hlate⟩ := hr.late_of_not_lands hz hi hnot
  have hleap := hr.isLeapSecond_eq_false hz hi
  -- The clock shows one hour more than at `i` after the first shift and two if the second is late
  -- too, but at most one after the single shift.
  by_cases hland : z.Lands b p r s
  · have hwall := Period.Moves.seconds_emod hp hland
    by_cases hland' : z.Lands (a + b) p i s
    · have hwall' := Period.Moves.seconds_emod hp hland'
      omega
    · -- Both `r` and `s` are in the first hour, and yet a day or more apart.
      obtain ⟨-, hfirst', -⟩ := ht.late_of_not_lands hz hi hland'
      obtain ⟨hahead, hback⟩ := Period.Moves.seconds_le hp hland
      have hr := Civil.first_seconds_le r.inRange
      have hs := Civil.first_seconds_le s.inRange
      rw [seconds_civil hz, seconds_civil hz] at hahead hback
      simp only [Instant.unix, secondsPerDay] at hfirst hfirst' hahead hback
      omega
  · obtain ⟨-, -, hlate'⟩ := hs.late_of_not_lands hz hleap hland
    by_cases hland' : z.Lands (a + b) p i s
    · have hwall' := Period.Moves.seconds_emod hp hland'
      omega
    · obtain ⟨-, -, hlate''⟩ := ht.late_of_not_lands hz hi hland'
      omega

end

end

end Zone

/-- Shifts one after the other, in a zone with one offset and away from leap seconds.  After a shift
that lands, a shift by the same unit leads where a single shift by both amounts does, and the shift
by the amount taken back leads back; units that are counted in months have to keep the day of the
month for that.  Shifts by units of one length lead to the same instant in either order if the first
one lands in both.  Only in the first hour of the calendar does a shift not land, by a unit of the
calendar, and then no second shift leads where the single shift does. -/
theorem shifts_compose (hz : Zone.fixed? offset = some z) (hi : i.isLeapSecond = false)
    (hr : z.ShiftsTo a p i r) :
    (z.Lands a p i r →
      ((p.inMonths = true → (z.civil r).date.day = (z.civil i).date.day) →
        (∀ b s, z.ShiftsTo b p r s ↔ z.ShiftsTo (a + b) p i s) ∧ z.ShiftsTo (-a) p r i) ∧
      ∀ q b v, p.inMonths = false → q.inMonths = false → z.ShiftsTo b q i v →
        z.Lands b q i v → ∀ s t, z.ShiftsTo b q r s → z.ShiftsTo a p v t → s = t) ∧
    (¬ z.Lands a p i r →
      p.elapses = false ∧ r.unix < Civil.first.seconds + 3600 ∧
        ∀ b s t, b ≠ 0 → z.ShiftsTo b p r s → z.ShiftsTo (a + b) p i t → s ≠ t) := by
  constructor
  · intro hland
    constructor
    · intro hday
      exact ⟨fun b s => hr.add_iff hz hi hland hday, hr.neg hz hi hland hday⟩
    · intro q b v hp hq hv hland' s t
      exact hr.comm hz hi hp hq hland hv hland'
  · intro hnot
    obtain ⟨hp, hfirst, -⟩ := hr.late_of_not_lands hz hi hnot
    exact ⟨hp, hfirst, fun b s t => hr.ne_of_not_lands hz hi hnot⟩

/-- An hour is within the bounds. -/
theorem Regime.hour_bound : (-86400 : Int) < 3600 ∧ (3600 : Int) < 86400 := by
  decide

/-- The zone that is an hour ahead of UTC for all time. -/
def Zone.hourAhead : Zone where
  name := "+01:00"
  initial := { offset := 3600, abbreviation := "+01:00", offset_bound := Regime.hour_bound }
  transitions := []

/-- A month and a year on from noon on 29 January 2024: the first step keeps the day, the second
cuts it. -/
theorem shifts_compose_leapDay :
    Zone.fixed? 3600 = some .hourAhead ∧
      Zone.hourAhead.ShiftsTo 1 .month (.ofSeconds 1706526000) (.ofSeconds 1709204400) ∧
      Zone.hourAhead.ShiftsTo 12 .month (.ofSeconds 1709204400) (.ofSeconds 1740740400) ∧
      Zone.hourAhead.ShiftsTo 13 .month (.ofSeconds 1706526000) (.ofSeconds 1740740400) ∧
      Zone.hourAhead.ShiftsTo (-1) .month (.ofSeconds 1709204400) (.ofSeconds 1706526000) := by
  have hz : Zone.fixed? 3600 = some .hourAhead := by decide +kernel
  have hland : Zone.hourAhead.Lands 1 .month (.ofSeconds 1706526000) (.ofSeconds 1709204400) :=
    ⟨⟨by decide +kernel, by decide +kernel⟩, by decide +kernel⟩
  have hland' : Zone.hourAhead.Lands 12 .month (.ofSeconds 1709204400) (.ofSeconds 1740740400) :=
    ⟨⟨by decide +kernel, by decide +kernel⟩, by decide +kernel⟩
  have hmonth := Zone.shiftsTo_of_lands hz (by decide) (fun _ => by decide +kernel) hland
  have hyear := Zone.shiftsTo_of_lands hz (by decide) (fun _ => by decide +kernel) hland'
  obtain ⟨hadd, hback⟩ :=
    ((shifts_compose hz (by decide) hmonth).1 hland).1 fun _ => by decide +kernel
  exact ⟨hz, hmonth, hyear, (hadd 12 _).1 hyear, hback⟩

/-- Half past midnight on the third day of the calendar.  Two days before, no instant has that time,
and half past one is taken for it; two days on from there, it is half past one. -/
theorem shifts_compose_firstHour :
    Zone.fixed? 3600 = some .hourAhead ∧
      ∃ i r s : Instant, i.isLeapSecond = false ∧ (Zone.hourAhead.civil i).InRange ∧
        shift .hourAhead i (-2) 'd' = .ok r ∧ shift .hourAhead r 2 'd' = .ok s ∧
        shift .hourAhead i (-2 + 2) 'd' = .ok i ∧ s ≠ i :=
  ⟨by decide +kernel, .ofSeconds (-8334601057800), .ofSeconds (-8334601227000),
    .ofSeconds (-8334601054200), by decide, by decide, by rfl, by rfl, by rfl, by decide⟩

end Almanac
