import Almanac.Proofs.Calendar.Date

/-!
# Months one after the other

Months are numbered through all years, twelve to each.  The month of a day is the last
one that begins no later than the day, and it ends on the day before the next begins.

Main definitions:

- `Date.monthNumber`: the number of the month of a date, counted from the year 0.
- `Date.monthStart`: the first date of the month with a number.

Main results:

- Theorem `Date.monthStart_le_iff`: a month begins no later than a day exactly if the
  month of the day is that month or a later one.
- Theorem `Date.addDays_monthStart_succ`: the day before a month begins.
- Theorem `Date.ofYMD?_eq_inRange?`: a day of a month is in the calendar if its year is.
-/

namespace Almanac

variable {year : Int} {month day : Nat}

/-! ## Months of one year -/

/-- A day of the year lies before the month after its own. -/
theorem monthOfOrdinal_bounds : ∀ leap : Bool, ∀ ordinal < 366,
    1 ≤ monthOfOrdinal leap ordinal ∧ monthOfOrdinal leap ordinal ≤ 12 ∧
      (monthOfOrdinal leap ordinal < 12 →
        ordinal < daysBeforeMonth leap (monthOfOrdinal leap ordinal + 1)) := by
  decide +kernel

/-- A later month begins later in the year. -/
theorem daysBeforeMonth_mono : ∀ leap : Bool, ∀ b < 13, ∀ a ≤ b, 1 ≤ a →
    daysBeforeMonth leap a ≤ daysBeforeMonth leap b := by
  decide +kernel

/-- A month begins no later than a day of the year if the month of the day is no earlier. -/
theorem daysBeforeMonth_le_iff (leap : Bool) {ordinal : Nat} (hpos : 1 ≤ month) (hle : month ≤ 12)
    (hordinal : ordinal < 366) :
    daysBeforeMonth leap month ≤ ordinal ↔ month ≤ monthOfOrdinal leap ordinal := by
  obtain ⟨hfirst, hlast, hnext⟩ := monthOfOrdinal_bounds leap ordinal hordinal
  have hbegun := daysBeforeMonth_monthOfOrdinal_le leap ordinal hordinal
  constructor
  · intro h
    refine Nat.le_of_not_lt fun hlt => ?_
    have hmono := daysBeforeMonth_mono leap month (by omega) (monthOfOrdinal leap ordinal + 1)
      (by omega) (by omega)
    have := hnext (by omega)
    omega
  · intro h
    have hmono := daysBeforeMonth_mono leap (monthOfOrdinal leap ordinal) (by omega) month h hpos
    omega

/-- Every month has a day, and begins within the year. -/
theorem monthDays_pos : ∀ leap : Bool, ∀ month < 13, 1 ≤ month →
    1 ≤ monthDays leap month ∧ daysBeforeMonth leap month < daysInYear leap := by
  decide +kernel

/-- Every month has a first day. -/
theorem one_le_daysInMonth (year : Int) (hpos : 1 ≤ month) (hle : month ≤ 12) :
    1 ≤ daysInMonth year month := by
  rw [daysInMonth_eq]
  exact (monthDays_pos _ month (by omega) hpos).1

/-- Every month but the last ends where the next one begins. -/
theorem daysBeforeMonth_succ : ∀ leap : Bool, ∀ month < 12, 1 ≤ month →
    daysBeforeMonth leap (month + 1) = daysBeforeMonth leap month + monthDays leap month := by
  decide +kernel

/-- The last month ends where the next year begins. -/
theorem daysInYear_eq (leap : Bool) :
    daysInYear leap = daysBeforeMonth leap 12 + monthDays leap 12 := by
  cases leap <;> rfl

namespace Date

/-- The months of dates are those from January to December. -/
theorem month_mem (d : Date) : 1 ≤ d.month ∧ d.month ≤ 12 :=
  have hbounds := monthOfOrdinal_bounds (isLeapYear d.year) d.ordinal d.ordinal_lt
  ⟨hbounds.1, hbounds.2.1⟩

/-! ## Months of all years -/

/-- The number of the month of a date, with January of the year 0 as month 0. -/
def monthNumber (d : Date) : Int :=
  12 * d.year + (d.month - 1 : Nat)

/-- The first date of the month with a number. -/
def monthStart (m : Int) : Date :=
  ofYMD (m / 12) ((m % 12).toNat + 1) 1

/-- Where a month counted from year zero begins, by its year and its place in it. -/
theorem monthStart_eq (year : Int) (hpos : 1 ≤ month) (hle : month ≤ 12) :
    monthStart (12 * year + (month - 1 : Nat)) = ofYMD year month 1 := by
  have hyear : (12 * year + (month - 1 : Nat)) / 12 = year := by omega
  have hmonth : ((12 * year + (month - 1 : Nat)) % 12).toNat + 1 = month := by omega
  rw [monthStart, hyear, hmonth]

/-- The month of a day is the last one that begins no later. -/
theorem monthStart_le_iff {m : Int} {d : Date} :
    (monthStart m).dayNumber ≤ d.dayNumber ↔ m ≤ d.monthNumber := by
  obtain ⟨hmonth, hmax⟩ := d.month_mem
  have hfirst : daysBeforeYear d.year ≤ d.dayNumber := (yearOfDay_bounds d.dayNumber).1
  have hlast : d.dayNumber < daysBeforeYear (d.year + 1) := (yearOfDay_bounds d.dayNumber).2
  have hstart : (monthStart m).dayNumber = daysBeforeYear (m / 12) +
      daysBeforeMonth (isLeapYear (m / 12)) ((m % 12).toNat + 1) := by
    simp [monthStart, ofYMD]
  rw [hstart, monthNumber]
  -- The years decide, unless the month is in the year of the day.
  rcases Int.lt_trichotomy (m / 12) d.year with hbefore | heq | hafter
  · have hmonth := (monthDays_pos (isLeapYear (m / 12)) ((m % 12).toNat + 1) (by omega)
      (by omega)).2
    have hyear := daysBeforeYear_le (Int.add_one_le_of_lt hbefore)
    rw [daysBeforeYear_succ] at hyear
    omega
  · have hordinal : (d.ordinal : Int) = d.dayNumber - daysBeforeYear d.year := by
      rw [ordinal]
      omega
    have hiff : daysBeforeMonth (isLeapYear d.year) ((m % 12).toNat + 1) ≤ d.ordinal ↔
        (m % 12).toNat + 1 ≤ d.month :=
      daysBeforeMonth_le_iff _ (by omega) (by omega) d.ordinal_lt
    rw [heq]
    omega
  · have hyear := daysBeforeYear_le (Int.add_one_le_of_lt hafter)
    omega

/-- The last day of a month is the one before the next month begins. -/
theorem addDays_monthStart_succ (year : Int) (hpos : 1 ≤ month) (hle : month ≤ 12) :
    (monthStart (12 * year + month)).addDays (-1) = ofYMD year month (daysInMonth year month) := by
  have hdays := (monthDays_pos (isLeapYear year) month (by omega) hpos).1
  rw [daysInMonth_eq]
  rcases Nat.lt_or_eq_of_le hle with hlt | rfl
  · have hnext := monthStart_eq year (show 1 ≤ month + 1 by omega) (by omega)
    have hsucc := daysBeforeMonth_succ (isLeapYear year) month hlt hpos
    rw [Nat.add_sub_cancel] at hnext
    rw [hnext]
    simp only [ofYMD, addDays, Date.mk.injEq]
    omega
  · have hnext := monthStart_eq (year + 1) (Nat.le_refl 1) (by omega)
    have hsucc := daysInYear_eq (isLeapYear year)
    have hfirst : daysBeforeMonth (isLeapYear (year + 1)) 1 = 0 := by
      cases isLeapYear (year + 1) <;> rfl
    rw [show 12 * year + ((12 : Nat) : Int) = 12 * (year + 1) + (1 - 1 : Nat) by omega, hnext]
    simp only [ofYMD, addDays, Date.mk.injEq, daysBeforeYear_succ]
    omega

/-- A day of a month is in the calendar if its year is. -/
theorem ofYMD?_eq_inRange? (hpos : 1 ≤ day) (hle : day ≤ daysInMonth year month) :
    ofYMD? year month day = (ofYMD year month day).inRange? := by
  have hrange := @inRange_iff_year (ofYMD year month day)
  rw [year_ofYMD hpos hle] at hrange
  rw [ofYMD?, inRange?]
  simp only [hrange, hpos, hle, and_true]

end Date

end Almanac
