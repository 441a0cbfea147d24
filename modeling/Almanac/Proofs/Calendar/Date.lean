import Almanac.Calendar.Date

/-!
# Reading dates back

A day number is the sum of the days before the year, the days before the month, and
the days of the month.  The years tile the days, and the months tile a year, so that
each part can be read off the sum again.

Main results:

- Theorem `daysBeforeYear_succ`: the length of a year.
- Theorem `yearOfDay_eq_iff`: the year of a day is the one whose days it lies among.
- Theorem `months_tile`: likewise for the month of a day of the year.
- Theorems `Date.year_ofYMD`, `Date.month_ofYMD`, `Date.day_ofYMD`: the parts of a date
  are those it was made from.
- Theorem `Date.ofYMD_parts`: a date is the one with its parts.
- Theorem `Date.ofYMD?_eq_some_iff`: which dates there are.
- Theorem `Date.inRange_iff_year`: the years that the calendar covers.
-/

namespace Almanac

variable {year : Int} {month day : Nat}

/-! ## Years -/

/-- Every fourth year is a leap year, but of the centuries only every fourth. -/
theorem isLeapYear_eq_true_iff :
    isLeapYear year = true ↔ year % 4 = 0 ∧ year % 100 ≠ 0 ∨ year % 400 = 0 := by
  simp [isLeapYear]

/-- The number of days in a year. -/
def daysInYear (leap : Bool) : Nat :=
  if leap then 366 else 365

/-- The years follow each other without a gap. -/
theorem daysBeforeYear_succ (year : Int) :
    daysBeforeYear (year + 1) = daysBeforeYear year + daysInYear (isLeapYear year) := by
  have hleap := @isLeapYear_eq_true_iff year
  cases h : isLeapYear year with
  | true =>
      rw [h, eq_self, true_iff] at hleap
      simp only [daysBeforeYear, daysInYear, if_true]
      omega
  | false =>
      rw [h, Bool.false_eq_true, false_iff] at hleap
      simp only [daysBeforeYear, daysInYear, Bool.false_eq_true, if_false]
      omega

/-- A later year begins later. -/
theorem daysBeforeYear_le {a b : Int} (h : a ≤ b) : daysBeforeYear a ≤ daysBeforeYear b := by
  simp only [daysBeforeYear]
  omega

/-- A day lies among the days of its year. -/
theorem yearOfDay_bounds (n : Int) :
    daysBeforeYear (yearOfDay n) ≤ n ∧ n < daysBeforeYear (yearOfDay n + 1) := by
  simp only [yearOfDay]
  generalize hguess : (n + 719162) * 400 / 146097 + 1 = guess
  have hlower : daysBeforeYear (guess - 1) ≤ n := by
    simp only [daysBeforeYear]
    omega
  have hupper : n < daysBeforeYear (guess + 1 + 1) := by
    simp only [daysBeforeYear]
    omega
  split
  · rename_i hbefore
    rw [Int.sub_add_cancel]
    exact ⟨hlower, hbefore⟩
  · rename_i hnotBefore
    split
    · rename_i hafter
      exact ⟨hafter, hupper⟩
    · rename_i hnotAfter
      exact ⟨Int.not_lt.1 hnotBefore, Int.not_le.1 hnotAfter⟩

/-- The year of a day is the one whose days it lies among. -/
theorem yearOfDay_eq_iff {n : Int} :
    yearOfDay n = year ↔ daysBeforeYear year ≤ n ∧ n < daysBeforeYear (year + 1) := by
  have hbounds := yearOfDay_bounds n
  constructor
  · rintro rfl
    exact hbounds
  · rintro ⟨hle, hlt⟩
    rcases Int.lt_trichotomy (yearOfDay n) year with hbefore | heq | hafter
    · have := daysBeforeYear_le (Int.add_one_le_of_lt hbefore)
      omega
    · exact heq
    · have := daysBeforeYear_le (Int.add_one_le_of_lt hafter)
      omega

/-! ## Months -/

/-- The number of days in a month depends on the year only by its length. -/
def monthDays (leap : Bool) (month : Nat) : Nat :=
  daysInMonth (if leap then 4 else 1) month

/-- How long a month is depends on the year only by whether it is a leap year. -/
theorem daysInMonth_eq (year : Int) (month : Nat) :
    daysInMonth year month = monthDays (isLeapYear year) month := by
  unfold monthDays
  cases h : isLeapYear year <;> unfold daysInMonth <;> split <;> first | rfl | rw [h]; rfl

/-- A month with a day is one of the twelve, and the day one of 31. -/
theorem month_bounds {leap : Bool} (hpos : 1 ≤ day) (hle : day ≤ monthDays leap month) :
    1 ≤ month ∧ month < 13 ∧ day < 32 := by
  have hmax : monthDays leap month ≤ 31 := by
    cases leap <;> unfold monthDays daysInMonth <;> split <;> decide
  have hmonth : 1 ≤ month ∧ month < 13 := by
    unfold monthDays daysInMonth at hle
    split at hle <;> omega
  exact ⟨hmonth.1, hmonth.2, Nat.lt_succ_of_le (Nat.le_trans hle hmax)⟩

/-- The twelve months tile the year. -/
theorem months_tile : ∀ leap : Bool, ∀ month < 13, ∀ day < 32,
    1 ≤ day → day ≤ monthDays leap month →
      daysBeforeMonth leap month + day ≤ daysInYear leap ∧
        monthOfOrdinal leap (daysBeforeMonth leap month + (day - 1)) = month := by
  decide +kernel

/-- Every day of a year is in its month. -/
theorem daysBeforeMonth_monthOfOrdinal_le : ∀ leap : Bool, ∀ ordinal < 366,
    daysBeforeMonth leap (monthOfOrdinal leap ordinal) ≤ ordinal := by
  decide +kernel

/-! ## Dates -/

namespace Date

/-- No year has more than 366 days. -/
theorem ordinal_lt (d : Date) : d.ordinal < 366 := by
  obtain ⟨hle, hlt⟩ := yearOfDay_bounds d.dayNumber
  have hdays : daysInYear (isLeapYear (yearOfDay d.dayNumber)) ≤ 366 := by
    cases isLeapYear (yearOfDay d.dayNumber) <;> decide
  rw [daysBeforeYear_succ] at hlt
  rw [ordinal, Date.year]
  omega

/-- A date is the one with its year, month and day. -/
@[simp]
theorem ofYMD_parts (d : Date) : ofYMD d.year d.month d.day = d := by
  have hyear : daysBeforeYear d.year ≤ d.dayNumber := (yearOfDay_bounds d.dayNumber).1
  have hordinal : d.ordinal = (d.dayNumber - daysBeforeYear d.year).toNat := rfl
  have hmonth := daysBeforeMonth_monthOfOrdinal_le (isLeapYear d.year) d.ordinal d.ordinal_lt
  have hday : daysBeforeYear d.year + daysBeforeMonth (isLeapYear d.year) d.month +
      (d.day - 1 : Nat) = d.dayNumber := by
    rw [Date.day, Date.month]
    omega
  rw [ofYMD, hday]

section

variable (hpos : 1 ≤ day) (hle : day ≤ daysInMonth year month)
include hpos hle

/-- A day of a month is a day of its year, and counted from the start of the year it is in the
same month. -/
theorem ofYMD_bounds :
    daysBeforeMonth (isLeapYear year) month + day ≤ daysInYear (isLeapYear year) ∧
      monthOfOrdinal (isLeapYear year)
        (daysBeforeMonth (isLeapYear year) month + (day - 1)) = month := by
  rw [daysInMonth_eq] at hle
  obtain ⟨-, hmonth, hday⟩ := month_bounds hpos hle
  exact months_tile _ month hmonth day hday hpos hle

/-- The year of a date that is given by year, month and day. -/
@[simp]
theorem year_ofYMD : (ofYMD year month day).year = year := by
  obtain ⟨hyear, -⟩ := ofYMD_bounds hpos hle
  simp only [Date.year, yearOfDay_eq_iff, daysBeforeYear_succ, ofYMD]
  omega

/-- The day of the year of a date that is given by year, month and day. -/
theorem ordinal_ofYMD :
    (ofYMD year month day).ordinal = daysBeforeMonth (isLeapYear year) month + (day - 1) := by
  rw [ordinal, year_ofYMD hpos hle]
  simp only [ofYMD]
  omega

/-- The month of a date that is given by year, month and day. -/
@[simp]
theorem month_ofYMD : (ofYMD year month day).month = month := by
  rw [Date.month, year_ofYMD hpos hle, ordinal_ofYMD hpos hle]
  exact (ofYMD_bounds hpos hle).2

/-- The day of a date that is given by year, month and day. -/
@[simp]
theorem day_ofYMD : (ofYMD year month day).day = day := by
  rw [Date.day, year_ofYMD hpos hle, month_ofYMD hpos hle, ordinal_ofYMD hpos hle]
  omega

end

/-- The calendar has the days of the months of its years. -/
theorem ofYMD?_eq_some_iff {d : Date} :
    ofYMD? year month day = some d ↔
      (minYear ≤ year ∧ year ≤ maxYear ∧ 1 ≤ day ∧ day ≤ daysInMonth year month) ∧
        d = ofYMD year month day := by
  unfold ofYMD?
  split <;> rename_i hfields
  · simp [hfields, eq_comm]
  · simp only [hfields, false_and, reduceCtorEq]

/-- A date within the calendar is the only one that passes the check, and does so unchanged. -/
theorem inRange?_eq_some_iff {d e : Date} : d.inRange? = some e ↔ e = d ∧ e.InRange := by
  rw [inRange?, Option.ite_none_right_eq_some, Option.some.injEq]
  constructor
  · rintro ⟨h, rfl⟩
    exact ⟨rfl, h⟩
  · rintro ⟨rfl, h⟩
    exact ⟨h, rfl⟩

/-- A date lies in the calendar exactly if its year does. -/
theorem inRange_iff_year {d : Date} : d.InRange ↔ minYear ≤ d.year ∧ d.year ≤ maxYear := by
  obtain ⟨hle, hlt⟩ := yearOfDay_bounds d.dayNumber
  rw [InRange, minDay, maxDay, Date.year]
  constructor
  · intro hrange
    refine ⟨Int.not_lt.1 fun hbefore => ?_, Int.not_lt.1 fun hafter => ?_⟩
    · have := daysBeforeYear_le (Int.add_one_le_of_lt hbefore)
      omega
    · have := daysBeforeYear_le (Int.add_one_le_of_lt hafter)
      omega
  · rintro ⟨hmin, hmax⟩
    have hfirst := daysBeforeYear_le hmin
    have hlast := daysBeforeYear_le (Int.add_le_add_right hmax 1)
    omega

end Date

end Almanac
