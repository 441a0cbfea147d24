import Almanac.Operation.Apply
import Almanac.Proofs.Calendar.MonthShift
import Almanac.Proofs.Eval.Failure
import Almanac.Proofs.Operation.Composition
import Almanac.Proofs.Token.Word

/-!
# Days and times of day that are set

The operations `day` and `time` set one part of a civil time each and keep the other.  Nothing
is carried from a part into the next one: a day that the month does not have is refused, and a
leap second stays one on another day.  So a part that is set to what it shows is unchanged, of
two days or two times the second one counts, and a day and a time can be set in either order.

Main definitions:

- `SaysNumber`: that a text is a number.
- `Civil.setDay`, `Civil.setTime`: another day of the month, another time of day.
- `Date.MonthInside`: that the calendar covers a month, and a day more at both ends.

Main results:

- Theorem `unsigned?_eq_some_iff`: which texts are read as a number.
- Theorem `Civil.setDay_setTime`: a day and a time can be set in either order.
- Theorem `Zone.exists_civil_eq`: away from the ends of the calendar every civil time is had.
- Theorem `assignments_independent`: what `day` and `time` set, one after the other.
-/

namespace Almanac

open Text

variable {c : Civil} {d e : Date} {day m n : Nat} {t : TimeOfDay}

/-! ## Arguments -/

/-- A text is the number `n`: digits, with a plus sign before them or none. -/
def SaysNumber (text : String) (n : Nat) : Prop :=
  ∃ digits, IsNumber digits ∧ valueOf digits = n ∧
    (text.toList = digits ∨ text.toList = '+' :: digits)

/-- A text is read as a number if it says that number in digits. -/
theorem unsigned?_eq_some_iff {text : String} :
    unsigned? text.toList = some n ↔ SaysNumber text n := by
  have hread (digits : List Char) :
      (digits ≠ [] ∧ digits.all Char.isDigit = true) ↔ IsNumber digits := by
    rw [List.all_eq_true]
    exact ⟨fun h => ⟨h.1, h.2⟩, fun h => ⟨h.ne_nil, h.isDigit⟩⟩
  constructor
  · intro h
    unfold unsigned? at h
    split at h
    all_goals
      simp only [hread, Option.ite_none_right_eq_some, Option.some.injEq] at h
    · rename_i rest htext
      exact ⟨rest, h.1, h.2, .inr htext⟩
    · exact ⟨_, h.1, h.2, .inl rfl⟩
  · rintro ⟨digits, hdigits, rfl, htext | htext⟩
    · obtain ⟨c, rest, rfl⟩ := List.exists_cons_of_ne_nil hdigits.ne_nil
      have hc : c ≠ '+' := ne_of_isDigit (hdigits.isDigit c (List.mem_cons_self ..)) rfl
      rw [htext]
      simpa [unsigned?, hc] using (hread _).2 hdigits
    · rw [htext]
      exact if_pos ((hread digits).2 hdigits)

/-- A text that says a number has a digit. -/
theorem SaysNumber.ne_empty {text : String} (h : SaysNumber text n) : text ≠ "" := by
  rintro rfl
  obtain ⟨digits, hdigits, -, htext | htext⟩ := h
  · exact hdigits.ne_nil htext.symm
  · cases htext

/-- A text that is a time of day is not empty. -/
theorem ne_empty_of_clockTime? {text : String} (h : Literal.clockTime? text.toList = some t) :
    text ≠ "" := by
  rintro rfl
  cases h

/-! ## Parts of civil times -/

namespace Civil

/-- The month that is shown has a day with the number `day`. -/
def MonthHasDay (c : Civil) (day : Nat) : Prop :=
  1 ≤ day ∧ day ≤ daysInMonth c.date.year c.date.month

instance (c : Civil) (day : Nat) : Decidable (c.MonthHasDay day) :=
  inferInstanceAs (Decidable (_ ∧ _))

/-- Another day of the month, at the same time of day. -/
def setDay (c : Civil) (day : Nat) : Civil :=
  (Date.ofYMD c.date.year c.date.month day).at c.time

/-- The same date at another time of day. -/
def setTime (c : Civil) (t : TimeOfDay) : Civil :=
  c.date.at t

/-- The parts of a civil time are these. -/
structure HasParts (c : Civil) (year : Int) (month day : Nat) (time : TimeOfDay) : Prop where
  year : c.date.year = year
  month : c.date.month = month
  day : c.date.day = day
  time : c.time = time

/-- A day that is set is the day of the month, and the rest is as it was. -/
theorem hasParts_setDay (h : c.MonthHasDay n) :
    (c.setDay n).HasParts c.date.year c.date.month n c.time := by
  refine ⟨?_, ?_, ?_, time_at ..⟩ <;> rw [setDay, date_at]
  · exact Date.year_ofYMD h.1 h.2
  · exact Date.month_ofYMD h.1 h.2
  · exact Date.day_ofYMD h.1 h.2

/-- A time that is set is the time of the day, and the rest is as it was. -/
theorem hasParts_setTime (c : Civil) (t : TimeOfDay) :
    (c.setTime t).HasParts c.date.year c.date.month c.date.day t := by
  refine ⟨?_, ?_, ?_, time_at ..⟩ <;> rw [setTime, date_at]

/-- A day that is set to what it is stays as it is. -/
theorem setDay_day (c : Civil) : c.setDay c.date.day = c := by
  rw [setDay, Date.ofYMD_parts, at_date_time]

/-- A day and a time can be set in either order. -/
theorem setDay_setTime (c : Civil) (n : Nat) (t : TimeOfDay) :
    (c.setDay n).setTime t = (c.setTime t).setDay n := by
  rw [setTime, setDay, date_at, setDay, setTime, date_at, time_at]

/-- Whether the month has a day does not depend on the time. -/
theorem monthHasDay_setTime (t : TimeOfDay) :
    (c.setTime t).MonthHasDay n ↔ c.MonthHasDay n := by
  rw [MonthHasDay, setTime, date_at, MonthHasDay]

end Civil

/-! ## Reading the arguments -/

section Arguments

variable {a : String}

/-- A day of the month can be set. -/
theorem withDay?_eq_some (hyear : c.date.InRange) (ha : SaysNumber a n) (hn : c.MonthHasDay n) :
    withDay? c a.toList = some (c.setDay n) := by
  have hdate : c.date.withDay? n = some (Date.ofYMD c.date.year c.date.month n) :=
    Date.ofYMD?_eq_some_iff.2
      ⟨⟨(Date.inRange_iff_year.1 hyear).1, (Date.inRange_iff_year.1 hyear).2, hn⟩, rfl⟩
  simp [withDay?, unsigned?_eq_some_iff.2 ha, hdate, Civil.setDay]

/-- A day that the month does not have cannot be set. -/
theorem withDay?_eq_none (ha : SaysNumber a n) (hn : ¬ c.MonthHasDay n) :
    withDay? c a.toList = none := by
  have hdate : c.date.withDay? n = none := by
    rw [Date.withDay?, Date.ofYMD?, if_neg]
    exact fun h => hn h.2.2
  simp [withDay?, unsigned?_eq_some_iff.2 ha, hdate]

/-- Which day an argument sets does not depend on the day that was set before. -/
theorem withDay?_setDay (hm : c.MonthHasDay m) (cs : List Char) :
    withDay? (c.setDay m) cs = withDay? c cs := by
  have hparts := Civil.hasParts_setDay hm
  simp only [withDay?, Date.withDay?, hparts.year, hparts.month, hparts.time]

/-- A time that is set anew replaces the one before. -/
theorem withTime?_setTime (c : Civil) (t : TimeOfDay) (cs : List Char) :
    withTime? (c.setTime t) cs = withTime? c cs := by
  rw [withTime?, withTime?, Civil.setTime, Civil.date_at]

end Arguments

/-! ## Away from the ends of the calendar -/

/-- The calendar covers the month of a date, the day before it and the day after it. -/
structure Date.MonthInside (d : Date) : Prop where
  before : ((monthStart d.monthNumber).addDays (-1)).InRange
  after : (monthStart (d.monthNumber + 1)).InRange

/-- The days next to a date of that month are covered, too. -/
theorem Date.MonthInside.inRange_addDays (h : d.MonthInside) (he : e.monthNumber = d.monthNumber) :
    (e.addDays (-1)).InRange ∧ e.InRange ∧ (e.addDays 1).InRange := by
  have hbegun : (monthStart d.monthNumber).dayNumber ≤ e.dayNumber :=
    monthStart_le_iff.2 (Int.le_of_eq he.symm)
  have hnext : ¬ (monthStart (d.monthNumber + 1)).dayNumber ≤ e.dayNumber := by
    rw [monthStart_le_iff, he]
    omega
  have hbefore := h.before
  have hafter := h.after
  simp only [InRange, addDays] at hbefore hafter ⊢
  omega

/-- A date of a covered month is covered. -/
theorem Date.MonthInside.inRange (h : d.MonthInside) : d.InRange :=
  (h.inRange_addDays rfl).2.1

/-- Dates of the same year and month are in the same month, counted from year zero. -/
theorem Date.monthNumber_eq_of_parts (hyear : e.year = d.year) (hmonth : e.month = d.month) :
    e.monthNumber = d.monthNumber := by
  rw [monthNumber, monthNumber, hyear, hmonth]

/-- Another day of a covered month is in a covered month. -/
theorem Date.MonthInside.setDay (h : c.date.MonthInside) (hn : c.MonthHasDay n) :
    (c.setDay n).date.MonthInside := by
  have hparts := Civil.hasParts_setDay hn
  have hmonth := Date.monthNumber_eq_of_parts hparts.year hparts.month
  exact ⟨hmonth ▸ h.before, hmonth ▸ h.after⟩

/-- Another time of day is in the same month. -/
theorem Date.MonthInside.setTime (h : c.date.MonthInside) : (c.setTime t).date.MonthInside := by
  rwa [Civil.setTime, Civil.date_at]

/-! ## Operations in zones with one offset -/

section Fixed

variable {offset : Int} {z : Zone} {i r : Instant} (start : WeekStart)
  (hz : Zone.fixed? offset = some z)
include hz

/-- A civil time is had by an instant if the calendar covers the day before and the day after. -/
theorem Zone.exists_civil_eq (hbefore : (c.date.addDays (-1)).InRange)
    (hafter : (c.date.addDays 1).InRange) : ∃ i, z.civil i = c := by
  have hoffset := z.offsetAt_bounds 0
  rw [Zone.offsetAt_of_fixed hz] at hoffset
  have hcovered : Civil.InRange { c with seconds := c.seconds - offset } := by
    simp only [Civil.InRange, Date.InRange, Date.addDays, Civil.date, secondsPerDay]
      at hbefore hafter ⊢
    omega
  refine ⟨⟨_, hcovered⟩, Civil.ext ?_ rfl⟩
  rw [Zone.seconds_civil hz]
  simp only
  omega

/-- The civil time of an instant is mapped back to it. -/
theorem Zone.localize_civil (r : Instant) : z.localize (z.civil r) = .ok r :=
  orOutOfRange_eq_ok_iff.2 (Zone.localize?_civil hz r)

end Fixed

namespace Operation

/-- The operation `day` with an argument. -/
def setDay (argument : String) : Operation where
  op := "day"
  value := argument

/-- The operation `time` with an argument. -/
def setTime (argument : String) : Operation where
  op := "time"
  value := argument

section Apply

variable {start : WeekStart} {z : Zone} {i r : Instant} {a b : String}

/-- A day is set on what the clocks show, if the calendar covers that. -/
theorem apply_setDay (hcovered : (z.civil i).InRange) (ha : a ≠ "") :
    (setDay a).apply start z i =
      match withDay? (z.civil i) a.toList with
      | some moved => z.localize moved
      | none => .error (.invalidArgument "day" a) := by
  simp only [apply_of_inRange hcovered, target, setDay, ha]
  cases withDay? (z.civil i) a.toList <;> rfl

/-- A time of day is set on what the clocks show, if the calendar covers that. -/
theorem apply_setTime (hcovered : (z.civil i).InRange) (ha : a ≠ "") :
    (setTime a).apply start z i =
      match withTime? (z.civil i) a.toList with
      | some moved => z.localize moved
      | none => .error (.invalidArgument "time" a) := by
  simp only [apply_of_inRange hcovered, target, setTime, ha]
  cases withTime? (z.civil i) a.toList <;> rfl

/-- The second of two operations is applied to what the first gives. -/
theorem applyAll_pair (o p : Operation) (h : o.apply start z i = .ok r) :
    applyAll start z i [o, p] = p.apply start z r := by
  rw [applyAll_cons, h]
  change applyAll start z r [p] = p.apply start z r
  rw [applyAll_cons]
  cases p.apply start z r <;> rfl

section Fixed

variable {offset : Int} (start) (hz : Zone.fixed? offset = some z)
  (hinside : (z.civil i).date.MonthInside)
include hz hinside

/-- A day that the month has is set. -/
theorem exists_apply_setDay (ha : SaysNumber a n) (hn : (z.civil i).MonthHasDay n) :
    ∃ r, (setDay a).apply start z i = .ok r ∧ z.civil r = (z.civil i).setDay n := by
  have hparts := Civil.hasParts_setDay hn
  obtain ⟨hbefore, -, hafter⟩ := hinside.inRange_addDays
    (Date.monthNumber_eq_of_parts hparts.year hparts.month)
  obtain ⟨r, hr⟩ := Zone.exists_civil_eq hz hbefore hafter
  refine ⟨r, ?_, hr⟩
  rw [apply_setDay hinside.inRange ha.ne_empty, withDay?_eq_some hinside.inRange ha hn, ← hr]
  exact Zone.localize_civil hz r

/-- A time of day is set. -/
theorem exists_apply_setTime (ha : Literal.clockTime? a.toList = some t) :
    ∃ r, (setTime a).apply start z i = .ok r ∧ z.civil r = (z.civil i).setTime t := by
  have hdate : ((z.civil i).setTime t).date = (z.civil i).date := Civil.date_at ..
  obtain ⟨hbefore, -, hafter⟩ := hinside.inRange_addDays rfl
  obtain ⟨r, hr⟩ := Zone.exists_civil_eq (c := (z.civil i).setTime t) hz (hdate ▸ hbefore)
    (hdate ▸ hafter)
  refine ⟨r, ?_, hr⟩
  rw [apply_setTime hinside.inRange (ne_empty_of_clockTime? ha), withTime?, ha, Option.map_some]
  change z.localize ((z.civil i).setTime t) = .ok r
  rw [← hr]
  exact Zone.localize_civil hz r

/-- A day and a time are set in either order. -/
theorem exists_applyAll_both (ha : SaysNumber a n) (hn : (z.civil i).MonthHasDay n)
    (hb : Literal.clockTime? b.toList = some t) :
    ∃ r, applyAll start z i [setDay a, setTime b] = .ok r ∧
      applyAll start z i [setTime b, setDay a] = .ok r ∧
        z.civil r = ((z.civil i).setDay n).setTime t := by
  obtain ⟨j, hj, hday⟩ := exists_apply_setDay start hz hinside ha hn
  obtain ⟨k, hk, htime⟩ := exists_apply_setTime start hz hinside hb
  have hinsideDay : (z.civil j).date.MonthInside := hday ▸ hinside.setDay hn
  have hinsideTime : (z.civil k).date.MonthInside := htime ▸ hinside.setTime
  have hnTime : (z.civil k).MonthHasDay n := by
    rwa [htime, Civil.monthHasDay_setTime]
  obtain ⟨r, hr, hcivil⟩ := exists_apply_setTime start hz hinsideDay hb
  obtain ⟨s, hs, hcivil'⟩ := exists_apply_setDay start hz hinsideTime ha hnTime
  rw [hday] at hcivil
  rw [htime, ← Civil.setDay_setTime, ← hcivil] at hcivil'
  obtain rfl := Zone.eq_of_civil_eq hz hcivil'
  exact ⟨s, by rw [applyAll_pair _ _ hj, hr], by rw [applyAll_pair _ _ hk, hs], hcivil⟩

end Fixed

end Apply

end Operation

/-! ## Days and times, one after the other -/

/-- In a zone with one offset and away from the ends of the calendar, `day` with a number sets the
day of the month and nothing else if the month has that day, and is refused if not; the day that is
shown is set without a change.  After a day that the month has, what `day` does is what it does
without that; so it is with times of day.  A day and a time are set in either order, and then they
are both shown, in the same month. -/
theorem assignments_independent {offset : Int} {z : Zone} {i : Instant}
    (hz : Zone.fixed? offset = some z) (start : WeekStart)
    (hinside : (z.civil i).date.MonthInside) :
    (∀ a n, SaysNumber a n →
      ((z.civil i).MonthHasDay n → ∃ r, (Operation.setDay a).apply start z i = .ok r ∧
        (z.civil r).HasParts (z.civil i).date.year (z.civil i).date.month n (z.civil i).time) ∧
      (¬ (z.civil i).MonthHasDay n →
        (Operation.setDay a).apply start z i = .error (.invalidArgument "day" a)) ∧
      (n = (z.civil i).date.day → (Operation.setDay a).apply start z i = .ok i)) ∧
    (∀ a t, Literal.clockTime? a.toList = some t →
      ∃ r, (Operation.setTime a).apply start z i = .ok r ∧ (z.civil r).HasParts
        (z.civil i).date.year (z.civil i).date.month (z.civil i).date.day t) ∧
    (∀ a m b, SaysNumber a m → (z.civil i).MonthHasDay m → b ≠ "" →
      Operation.applyAll start z i [.setDay a, .setDay b] =
        (Operation.setDay b).apply start z i) ∧
    (∀ a s b, Literal.clockTime? a.toList = some s → b ≠ "" →
      Operation.applyAll start z i [.setTime a, .setTime b] =
        (Operation.setTime b).apply start z i) ∧
    (∀ a n b t, SaysNumber a n → (z.civil i).MonthHasDay n →
      Literal.clockTime? b.toList = some t →
      ∃ r, Operation.applyAll start z i [.setDay a, .setTime b] = .ok r ∧
        Operation.applyAll start z i [.setTime b, .setDay a] = .ok r ∧
        (z.civil r).HasParts (z.civil i).date.year (z.civil i).date.month n t) := by
  refine ⟨?_, ?_, ?_, ?_, ?_⟩
  · intro a n ha
    refine ⟨?_, ?_, ?_⟩
    · intro hn
      obtain ⟨r, hr, hcivil⟩ := Operation.exists_apply_setDay start hz hinside ha hn
      exact ⟨r, hr, hcivil ▸ Civil.hasParts_setDay hn⟩
    · intro hn
      rw [Operation.apply_setDay hinside.inRange ha.ne_empty, withDay?_eq_none ha hn]
    · rintro rfl
      have hown : (z.civil i).MonthHasDay (z.civil i).date.day :=
        ⟨Date.one_le_day _, Date.daysInMonth_eq_monthLength _ ▸ Date.day_le _⟩
      obtain ⟨r, hr, hcivil⟩ := Operation.exists_apply_setDay start hz hinside ha hown
      rw [hr, Zone.eq_of_civil_eq hz (hcivil.trans (Civil.setDay_day _))]
  · intro a t ha
    obtain ⟨r, hr, hcivil⟩ := Operation.exists_apply_setTime start hz hinside ha
    exact ⟨r, hr, hcivil ▸ Civil.hasParts_setTime _ t⟩
  · intro a m b ha hm hb
    obtain ⟨r, hr, hcivil⟩ := Operation.exists_apply_setDay start hz hinside ha hm
    have hinsideDay : (z.civil r).date.MonthInside := hcivil ▸ hinside.setDay hm
    rw [Operation.applyAll_pair _ _ hr, Operation.apply_setDay hinsideDay.inRange hb,
      Operation.apply_setDay hinside.inRange hb, hcivil, withDay?_setDay hm]
  · intro a s b ha hb
    obtain ⟨r, hr, hcivil⟩ := Operation.exists_apply_setTime start hz hinside ha
    have hinsideTime : (z.civil r).date.MonthInside := hcivil ▸ hinside.setTime
    rw [Operation.applyAll_pair _ _ hr, Operation.apply_setTime hinsideTime.inRange hb,
      Operation.apply_setTime hinside.inRange hb, hcivil, withTime?_setTime]
  · intro a n b t ha hn hb
    obtain ⟨r, hr, hr', hcivil⟩ :=
      Operation.exists_applyAll_both start hz hinside ha hn hb
    have hday := Civil.hasParts_setDay hn
    have hboth := Civil.hasParts_setTime ((z.civil i).setDay n) t
    rw [hday.year, hday.month, hday.day, ← hcivil] at hboth
    exact ⟨r, hr, hr', hboth⟩

/-- In the leap second at the end of 2016, an hour ahead of UTC one hour into the year 2017. -/
def leapNewYear : Instant :=
  ⟨⟨1483228799, 1700000000, by decide⟩, by decide⟩

/-- Days and times that are set within a leap second, one over the other. -/
theorem assignments_independent_leapSecond :
    Zone.fixed? 3600 = some .hourAhead ∧
      (∃ r, (Operation.setDay "31").apply .monday .hourAhead leapNewYear = .ok r ∧
        (Zone.hourAhead.civil r).HasParts 2017 1 31 ⟨3599, 1700000000, by decide, by decide⟩) ∧
      (Operation.setDay "32").apply .monday .hourAhead leapNewYear =
        .error (.invalidArgument "day" "32") ∧
      (Operation.setDay "01").apply .monday .hourAhead leapNewYear = .ok leapNewYear ∧
      (Operation.applyAll .monday .hourAhead leapNewYear [.setDay "31", .setDay "2x"] =
        (Operation.setDay "2x").apply .monday .hourAhead leapNewYear) ∧
      ∃ r, Operation.applyAll .monday .hourAhead leapNewYear [.setDay "7", .setTime "8:15"] =
          .ok r ∧
        Operation.applyAll .monday .hourAhead leapNewYear [.setTime "8:15", .setDay "7"] = .ok r ∧
        (Zone.hourAhead.civil r).HasParts 2017 1 7 ⟨29700, 0, by decide, by decide⟩ := by
  have hz : Zone.fixed? 3600 = some .hourAhead := by decide +kernel
  have hinside : (Zone.hourAhead.civil leapNewYear).date.MonthInside :=
    ⟨by decide +kernel, by decide +kernel⟩
  have hnumber (text : String) (n : Nat) (h : unsigned? text.toList = some n) :
      SaysNumber text n := unsigned?_eq_some_iff.1 h
  obtain ⟨hday, -, hdays, -, hboth⟩ := assignments_independent hz .monday hinside
  have hyear : (Zone.hourAhead.civil leapNewYear).date.year = 2017 := by decide +kernel
  have hmonth : (Zone.hourAhead.civil leapNewYear).date.month = 1 := by decide +kernel
  have htime : (Zone.hourAhead.civil leapNewYear).time =
      ⟨3599, 1700000000, by decide, by decide⟩ := by decide +kernel
  rw [hyear, hmonth, htime] at hday
  rw [hyear, hmonth] at hboth
  refine ⟨hz, ?_, ?_, ?_, ?_, ?_⟩
  · exact (hday "31" 31 (hnumber _ _ (by decide +kernel))).1 (by decide +kernel)
  · exact (hday "32" 32 (hnumber _ _ (by decide +kernel))).2.1 (by decide +kernel)
  · exact (hday "01" 1 (hnumber _ _ (by decide +kernel))).2.2 (by decide +kernel)
  · exact hdays "31" 31 "2x" (hnumber _ _ (by decide +kernel)) (by decide +kernel) (by decide)
  · exact hboth "7" 7 "8:15" _ (hnumber _ _ (by decide +kernel)) (by decide +kernel)
      (by decide +kernel)

end Almanac
