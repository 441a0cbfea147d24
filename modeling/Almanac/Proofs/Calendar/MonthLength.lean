import Almanac.Proofs.Calendar.MonthShift
import Mathlib.Order.Bounds.Defs

/-!
# The days that months have

How many days a month has is said by a table and the rule for leap years.  What days there are is
said by the dates, whose year, month and day are read off one count of days.  The two agree: the
number of days of a month is the greatest day that some date of the month has, in every year, and
the date with a given year, month and day is found exactly where the calendar covers one.

Main definitions:

- `HasDay`: the calendar, extended without end, has a day.

Main results:

- Theorem `hasDay_iff`: the days that a month has.
- Theorem `isGreatest_daysInMonth`: the number of days in a month is the greatest of them.
- Theorem `Date.ofYMD?_eq_some_iff_parts`: a date is found by its parts if the calendar covers it.
- Theorem `Date.inRange_iff_ends`: the calendar from its first day to its last.
-/

namespace Almanac

variable {year : Int} {month day : Nat} {d : Date}

/-- The calendar, extended without end, has a day: some date has that year, month and day. -/
def HasDay (year : Int) (month day : Nat) : Prop :=
  ∃ d : Date, d.year = year ∧ d.month = month ∧ d.day = day

/-- A month has the days from the first up to its number of days. -/
theorem hasDay_iff : HasDay year month day ↔ 1 ≤ day ∧ day ≤ daysInMonth year month := by
  constructor
  · rintro ⟨d, rfl, rfl, rfl⟩
    rw [d.daysInMonth_eq_monthLength]
    exact ⟨d.one_le_day, d.day_le⟩
  · rintro ⟨hpos, hle⟩
    exact ⟨Date.ofYMD year month day, Date.year_ofYMD hpos hle, Date.month_ofYMD hpos hle,
      Date.day_ofYMD hpos hle⟩

/-- The number of days in a month is the greatest day that the month has. -/
theorem isGreatest_daysInMonth (year : Int) (hpos : 1 ≤ month) (hle : month ≤ 12) :
    IsGreatest {day | HasDay year month day} (daysInMonth year month) := by
  constructor
  · exact hasDay_iff.2 ⟨one_le_daysInMonth year hpos hle, Nat.le_refl _⟩
  · intro day h
    exact (hasDay_iff.1 h).2

namespace Date

/-- A date is found by its year, month and day exactly if the calendar covers it. -/
theorem ofYMD?_eq_some_iff_parts :
    ofYMD? year month day = some d ↔
      d.InRange ∧ d.year = year ∧ d.month = month ∧ d.day = day := by
  rw [ofYMD?_eq_some_iff]
  constructor
  · rintro ⟨⟨hmin, hmax, hpos, hle⟩, rfl⟩
    rw [inRange_iff_year, year_ofYMD hpos hle]
    exact ⟨⟨hmin, hmax⟩, rfl, month_ofYMD hpos hle, day_ofYMD hpos hle⟩
  · rintro ⟨hrange, rfl, rfl, rfl⟩
    obtain ⟨hmin, hmax⟩ := inRange_iff_year.1 hrange
    obtain ⟨hpos, hle⟩ := hasDay_iff.1 ⟨d, rfl, rfl, rfl⟩
    exact ⟨⟨hmin, hmax, hpos, hle⟩, d.ofYMD_parts.symm⟩

/-- In the years that the calendar covers, it finds every day that there is. -/
theorem exists_ofYMD?_iff :
    (∃ d, ofYMD? year month day = some d) ↔
      (minYear ≤ year ∧ year ≤ maxYear) ∧ HasDay year month day := by
  constructor
  · rintro ⟨d, hd⟩
    obtain ⟨hrange, rfl, rfl, rfl⟩ := ofYMD?_eq_some_iff_parts.1 hd
    exact ⟨inRange_iff_year.1 hrange, d, rfl, rfl, rfl⟩
  · rintro ⟨hyear, d, rfl, hparts⟩
    exact ⟨d, ofYMD?_eq_some_iff_parts.2 ⟨inRange_iff_year.2 hyear, rfl, hparts⟩⟩

/-- The calendar covers the days from its first to its last. -/
theorem inRange_iff_ends :
    d.InRange ↔ (ofYMD (-262143) 1 1).dayNumber ≤ d.dayNumber ∧
      d.dayNumber ≤ (ofYMD 262142 12 31).dayNumber := by
  have hfirst : (ofYMD (-262143) 1 1).dayNumber = minDay := by decide
  have hlast : (ofYMD 262142 12 31).dayNumber = maxDay := by decide
  rw [InRange, hfirst, hlast]

end Date

end Almanac
