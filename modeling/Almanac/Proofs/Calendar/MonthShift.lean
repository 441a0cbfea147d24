import Almanac.Proofs.Calendar.Civil
import Almanac.Proofs.Calendar.Month

/-!
# Dates moved by months

A date is moved by months within the numbering of all months: to the month so many later,
on the same day, or on the last day of that month if it is shorter.  A date is found from
its month and its day, so that this says which date it is; and a month has 28 days at
least, so that a date moved by months is four weeks away at least, its day cut or not.

Main definitions:

- `Date.monthLength`: the number of days of the month with a number.
- `Date.MonthsAfter`, `Civil.MonthsAfter`: that a date or a civil time is so many months after
  another.

Main results:

- Theorem `Date.dayNumber_eq`: a date by its month and its day.
- Theorem `Date.exists_monthsAfter_iff`: there is one date so many months after another.
- Theorems `Date.MonthsAfter.lt`, `Date.MonthsAfter.lt_of_neg`: it lies four weeks ahead or more,
  or as far back.
- Theorem `Civil.addMonths?_eq_some_iff`: which civil time is found.
-/

namespace Almanac

namespace Date

variable {d e : Date} {m months : Int}

/-! ## Months and days -/

/-- The number of days of the month with a number. -/
def monthLength (m : Int) : Nat :=
  daysInMonth (m / 12) ((m % 12).toNat + 1)

/-- A month has 28 days at least. -/
theorem monthDays_bounds : ∀ leap : Bool, ∀ month < 13, 1 ≤ month →
    28 ≤ monthDays leap month ∧ monthDays leap month ≤ 31 := by
  decide +kernel

/-- All months have between 28 and 31 days. -/
theorem monthLength_bounds (m : Int) : 28 ≤ monthLength m ∧ monthLength m ≤ 31 := by
  rw [monthLength, daysInMonth_eq]
  exact monthDays_bounds _ _ (by omega) (by omega)

/-- A month begins where the one before it has ended. -/
theorem dayNumber_monthStart_succ (m : Int) :
    (monthStart (m + 1)).dayNumber = (monthStart m).dayNumber + monthLength m := by
  have hlast := @addDays_monthStart_succ ((m % 12).toNat + 1) (m / 12) (by omega) (by omega)
  have hlength := monthLength_bounds m
  rw [show 12 * (m / 12) + (((m % 12).toNat + 1 : Nat) : Int) = m + 1 by omega] at hlast
  have hday := congrArg Date.dayNumber hlast
  rw [← monthLength] at hday
  simp only [addDays, monthStart, ofYMD] at hday ⊢
  omega

/-- The year is told by the months counted from year zero. -/
theorem year_eq (d : Date) : d.year = d.monthNumber / 12 := by
  obtain ⟨hpos, hle⟩ := d.month_mem
  rw [monthNumber]
  omega

/-- The month of the year is told by the months counted from year zero. -/
theorem month_eq (d : Date) : d.month = (d.monthNumber % 12).toNat + 1 := by
  obtain ⟨hpos, hle⟩ := d.month_mem
  rw [monthNumber]
  omega

/-- The two ways to tell how long the month of a date is. -/
theorem daysInMonth_eq_monthLength (d : Date) :
    daysInMonth d.year d.month = monthLength d.monthNumber := by
  rw [monthLength, ← year_eq, ← month_eq]

/-- A date is found from its month and its day. -/
theorem dayNumber_eq (d : Date) :
    d.dayNumber = (monthStart d.monthNumber).dayNumber + (d.day - 1 : Nat) := by
  have hparts := congrArg Date.dayNumber d.ofYMD_parts
  rw [monthStart, ← year_eq, ← month_eq]
  simp only [ofYMD] at hparts ⊢
  omega

/-- The days of a month are counted from one. -/
theorem one_le_day (d : Date) : 1 ≤ d.day := by
  rw [day]
  omega

/-- The day of a date is one of its month. -/
theorem day_le (d : Date) : d.day ≤ monthLength d.monthNumber := by
  have hnext : ¬ (monthStart (d.monthNumber + 1)).dayNumber ≤ d.dayNumber := by
    rw [monthStart_le_iff]
    omega
  have hday := d.dayNumber_eq
  rw [dayNumber_monthStart_succ] at hnext
  omega

/-- A date is known by its month, counted from year zero, and its day. -/
theorem eq_of_monthNumber (hmonth : d.monthNumber = e.monthNumber) (hday : d.day = e.day) :
    d = e := by
  have hd := d.dayNumber_eq
  have he := e.dayNumber_eq
  rw [hmonth, hday, ← he] at hd
  cases d
  cases e
  exact congrArg Date.mk hd

/-- The date on a day of the month with a number. -/
theorem exists_date (m : Int) {day : Nat} (hpos : 1 ≤ day) (hle : day ≤ monthLength m) :
    ∃ e : Date, e.monthNumber = m ∧ e.day = day ∧
      e = ofYMD (m / 12) ((m % 12).toNat + 1) day := by
  refine ⟨_, ?_, day_ofYMD hpos hle, rfl⟩
  rw [monthNumber, year_ofYMD hpos hle, month_ofYMD hpos hle]
  omega

/-! ## So many months later -/

/-- A date so many months after another: in the month with the number so much higher, on
the same day or, if the month is too short, on its last. -/
structure MonthsAfter (d : Date) (months : Int) (e : Date) : Prop where
  monthNumber : e.monthNumber = d.monthNumber + months
  day : e.day = min d.day (daysInMonth e.year e.month)

/-- There is one date so many months after another. -/
theorem exists_monthsAfter_iff (d : Date) (months : Int) :
    ∃ e, (∀ f, d.MonthsAfter months f ↔ f = e) ∧
      e = ofYMD ((d.monthNumber + months) / 12) (((d.monthNumber + months) % 12).toNat + 1)
        (min d.day (monthLength (d.monthNumber + months))) := by
  have hlength := monthLength_bounds (d.monthNumber + months)
  have hday := d.one_le_day
  have hpos : 1 ≤ min d.day (monthLength (d.monthNumber + months)) := by omega
  obtain ⟨e, hmonth, hmin, he⟩ :=
    exists_date (d.monthNumber + months) hpos (Nat.min_le_right _ _)
  refine ⟨e, ?_, he⟩
  intro f
  constructor
  · intro hf
    apply eq_of_monthNumber
    · rw [hf.monthNumber, hmonth]
    · rw [hf.day, daysInMonth_eq_monthLength, hf.monthNumber, hmin]
  · rintro rfl
    exact ⟨hmonth, by rw [daysInMonth_eq_monthLength, hmonth, hmin]⟩

/-- Later months begin four weeks later at least. -/
theorem monthStart_add_le (m : Int) (n : Nat) :
    (monthStart m).dayNumber + 28 * n ≤ (monthStart (m + n)).dayNumber := by
  induction n with
  | zero => simp
  | succ n ih =>
      have hlength := monthLength_bounds (m + n)
      have hsucc := dayNumber_monthStart_succ (m + n)
      rw [show m + ((n + 1 : Nat) : Int) = m + n + 1 by omega]
      omega

/-- A date moved ahead by months lies four weeks ahead at least. -/
theorem MonthsAfter.lt (h : d.MonthsAfter months e) (hpos : 1 ≤ months) :
    d.dayNumber + 28 ≤ e.dayNumber := by
  obtain ⟨n, hn⟩ := Int.eq_ofNat_of_zero_le (show 0 ≤ months - 1 by omega)
  have hmonths := monthStart_add_le (d.monthNumber + 1) n
  have hsucc := dayNumber_monthStart_succ d.monthNumber
  have hd := d.dayNumber_eq
  have he := e.dayNumber_eq
  have hle := d.day_le
  have hlength := monthLength_bounds d.monthNumber
  have hlength' := monthLength_bounds e.monthNumber
  have hday := h.day
  rw [daysInMonth_eq_monthLength] at hday
  have hmonth : e.monthNumber = d.monthNumber + 1 + n := by
    rw [h.monthNumber]
    omega
  rw [hmonth] at he hlength' hday
  -- The days left of the first month and those of the last are four weeks together, be the day
  -- cut or not.
  omega

/-- A date moved back by months lies four weeks back at least. -/
theorem MonthsAfter.lt_of_neg (h : d.MonthsAfter months e) (hneg : months ≤ -1) :
    e.dayNumber + 28 ≤ d.dayNumber := by
  obtain ⟨n, hn⟩ := Int.eq_ofNat_of_zero_le (show 0 ≤ -months by omega)
  have hmonths := monthStart_add_le e.monthNumber n
  have hd := d.dayNumber_eq
  have he := e.dayNumber_eq
  have hday := h.day
  have hmonth : d.monthNumber = e.monthNumber + n := by
    rw [h.monthNumber]
    omega
  rw [hmonth] at hd
  -- The months between take four weeks each, and the day is not a later one of its month.
  omega

end Date

/-! ## Civil times -/

namespace Civil

variable {c r : Civil} {months : Int}

/-- A civil time so many months after another: at the same time of day on the date so many
months later. -/
structure MonthsAfter (c : Civil) (months : Int) (d : Civil) : Prop where
  date : c.date.MonthsAfter months d.date
  time : d.time = c.time

/-- There is one civil time so many months after another. -/
theorem exists_monthsAfter_iff (c : Civil) (months : Int) :
    ∃ d, ∀ e, c.MonthsAfter months e ↔ e = d := by
  obtain ⟨date, hdate, -⟩ := Date.exists_monthsAfter_iff c.date months
  refine ⟨date.at c.time, ?_⟩
  intro e
  constructor
  · intro h
    rw [← e.at_date_time, (hdate e.date).1 h.date, h.time]
  · rintro rfl
    exact ⟨(hdate _).2 (date_at ..), time_at ..⟩

/-- Moving a civil time by months leads to the same time on the date so many months later. -/
theorem addMonths?_eq (hlimit : months.natAbs ≤ maxMonths) :
    c.addMonths? months =
      (Date.ofYMD? ((c.date.monthNumber + months) / 12)
        (((c.date.monthNumber + months) % 12).toNat + 1)
        (min c.date.day (Date.monthLength (c.date.monthNumber + months)))).map (·.at c.time) := by
  have htotal : c.date.year * 12 + (c.date.month - 1 : Nat) + months =
      c.date.monthNumber + months := by
    rw [Date.monthNumber]
    omega
  rw [addMonths?, if_neg (Nat.not_lt.2 hlimit), Date.monthLength]
  simp only [htotal]

/-- Within the limit on months, a shift fails only where the result is past the calendar. -/
theorem addMonths?_eq_some_iff_of_le (hlimit : months.natAbs ≤ maxMonths) :
    c.addMonths? months = some r ↔ c.MonthsAfter months r ∧ r.InRange := by
  have hlength := Date.monthLength_bounds (c.date.monthNumber + months)
  have hday := c.date.one_le_day
  obtain ⟨e, hafter, he⟩ := Date.exists_monthsAfter_iff c.date months
  have hfound : Date.ofYMD? ((c.date.monthNumber + months) / 12)
      (((c.date.monthNumber + months) % 12).toNat + 1)
      (min c.date.day (Date.monthLength (c.date.monthNumber + months))) = e.inRange? := by
    rw [he, Date.ofYMD?_eq_inRange? (by omega) (by rw [← Date.monthLength]; omega)]
  rw [addMonths?_eq hlimit, hfound, Option.map_eq_some_iff]
  constructor
  · rintro ⟨d, hd, rfl⟩
    obtain ⟨rfl, hrange⟩ := Date.inRange?_eq_some_iff.1 hd
    rw [InRange, date_at]
    exact ⟨⟨(hafter _).2 (date_at ..), time_at ..⟩, hrange⟩
  · rintro ⟨hmonths, hrange⟩
    have hdate := (hafter r.date).1 hmonths.date
    refine ⟨r.date, Date.inRange?_eq_some_iff.2 ⟨hdate, hrange⟩, ?_⟩
    rw [← hmonths.time, at_date_time]

/-- What is found is a civil time so many months later. -/
theorem monthsAfter_of_addMonths? (h : c.addMonths? months = some r) :
    c.MonthsAfter months r ∧ r.InRange := by
  by_cases hlimit : months.natAbs ≤ maxMonths
  · exact (addMonths?_eq_some_iff_of_le hlimit).1 h
  · simp [addMonths?, Nat.lt_of_not_le hlimit] at h

/-- The limit on the number of months excludes no date of the calendar. -/
theorem addMonths?_eq_some_iff (hc : c.InRange) :
    c.addMonths? months = some r ↔ c.MonthsAfter months r ∧ r.InRange := by
  constructor
  · exact monthsAfter_of_addMonths?
  · rintro ⟨hmonths, hrange⟩
    have hcyear := Date.inRange_iff_year.1 hc
    have hryear := Date.inRange_iff_year.1 hrange
    have hmonth := hmonths.date.monthNumber
    have hlimit : months.natAbs ≤ maxMonths := by
      rw [Date.year_eq] at hcyear hryear
      simp only [Date.minYear, Date.maxYear, maxMonths] at hcyear hryear ⊢
      omega
    exact (addMonths?_eq_some_iff_of_le hlimit).2 ⟨hmonths, hrange⟩

end Civil

end Almanac
