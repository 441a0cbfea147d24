import Almanac.Operation.Period
import Almanac.Proofs.Calendar.Civil
import Almanac.Proofs.Calendar.Month
import Almanac.Proofs.Instant.Elapsed

/-!
# Periods one after the other

The periods of a unit are numbered through all time.  The period of a second is the last
one that begins no later, and this alone says that periods tile the time without a gap.
The first and the last nanosecond of a period are found from its number, the last as the
one before the next period begins.

Main definitions:

- `Period.numberOfDay`, `Period.number`: the number of the period of a day or second.
- `Period.firstDay`, `Period.begins`: the day or second with which a period begins.
- `Period.firstMoment`, `Period.lastMoment`: the first and the last nanosecond.

Main results:

- Theorem `Period.begins_le_iff`: the period of a second is the last that has begun.
- Theorem `Period.number_eq_iff_between`: which times are in a period.
- Theorems `Period.boundary?_first_eq_some_iff`, `Period.boundary?_last_eq_some_iff`: the
  boundaries of a period by its number.
- Theorem `Period.inRange_of_boundary?`: boundaries stay within the calendar.
-/

namespace Almanac

variable {start : WeekStart} {p : Period} {d : Date} {c : Civil}

/-! ## Weeks -/

/-- The weekday of a day is found from that of 1 January 1970, a Thursday. -/
theorem WeekStart.daysInto_weekday (start : WeekStart) (d : Date) :
    (start.daysInto d.weekday : Int) = (d.dayNumber + start.daysInto .thursday) % 7 := by
  have hsince (n : Nat) : (Weekday.ofSinceMonday n).sinceMonday = n % 7 := by
    have hn := Nat.mod_lt n (show 0 < 7 by decide)
    unfold Weekday.ofSinceMonday
    generalize n % 7 = r at hn
    match r with
    | 0 | 1 | 2 | 3 | 4 | 5 | 6 => rfl
    | r + 7 => omega
  have hweekday : d.weekday.sinceMonday = ((d.dayNumber + 3) % 7).toNat % 7 := hsince _
  have hthursday : Weekday.thursday.sinceMonday = 3 := rfl
  cases start with
  | monday =>
      simp only [daysInto, hweekday, hthursday]
      omega
  | sunday =>
      simp only [daysInto, Weekday.sinceSunday, hweekday, hthursday]
      omega

namespace Period

/-! ## Days -/

/-- The number of the period of a day. -/
def numberOfDay (start : WeekStart) (p : Period) (d : Date) : Int :=
  match p with
  | week => (d.dayNumber + start.daysInto .thursday) / 7
  | month => d.monthNumber
  | quarter => d.monthNumber / 3
  | year => d.monthNumber / 12
  | _ => d.dayNumber

/-- The day with which a period of at least a day begins. -/
def firstDay (start : WeekStart) (p : Period) (k : Int) : Date :=
  match p with
  | week => ⟨7 * k - start.daysInto .thursday⟩
  | month => Date.monthStart k
  | quarter => Date.monthStart (3 * k)
  | year => Date.monthStart (12 * k)
  | _ => ⟨k⟩

/-- The period of a day is the last one that begins no later. -/
theorem firstDay_le_iff {k : Int} :
    (p.firstDay start k).dayNumber ≤ d.dayNumber ↔ k ≤ p.numberOfDay start d := by
  cases p with
  | week =>
      simp only [firstDay, numberOfDay]
      omega
  | month => exact Date.monthStart_le_iff
  | quarter =>
      simp only [firstDay, numberOfDay, Date.monthStart_le_iff]
      omega
  | year =>
      simp only [firstDay, numberOfDay, Date.monthStart_le_iff]
      omega
  | _ => exact Iff.rfl

/-- A month, a quarter and a year go from one month of a year to another. -/
structure SpansMonths (start : WeekStart) (p : Period) (d : Date) (first last : Nat) : Prop where
  first_mem : 1 ≤ first ∧ first ≤ 12
  last_mem : 1 ≤ last ∧ last ≤ 12
  firstDate?_eq : p.firstDate? start d = Date.ofYMD? d.year first 1
  lastDate?_eq : p.lastDate? start d = Date.ofYMD? d.year last (daysInMonth d.year last)
  firstDay_eq : p.firstDay start (p.numberOfDay start d) =
    Date.monthStart (12 * d.year + (first - 1 : Nat))
  firstDay_succ_eq : p.firstDay start (p.numberOfDay start d + 1) =
    Date.monthStart (12 * d.year + last)

/-- A unit of the calendar other than the week is some number of whole months. -/
theorem exists_spansMonths (start : WeekStart) (hp : p.clockLength? = none) (hweek : p ≠ week)
    (d : Date) : ∃ first last, SpansMonths start p d first last := by
  obtain ⟨hpos, hle⟩ := d.month_mem
  have hnumber : d.monthNumber = 12 * d.year + (d.month - 1 : Nat) := rfl
  cases p with
  | week => exact absurd rfl hweek
  | month =>
      refine ⟨d.month, d.month, d.month_mem, d.month_mem, rfl, rfl, rfl, ?_⟩
      exact congrArg Date.monthStart (by simp only [numberOfDay]; omega)
  | quarter =>
      have hquarter : d.quarter = (d.month - 1) / 3 + 1 := rfl
      refine ⟨3 * d.quarter - 2, 3 * d.quarter, by omega, by omega, rfl, rfl, ?_, ?_⟩
      · exact congrArg Date.monthStart (by simp only [numberOfDay]; omega)
      · exact congrArg Date.monthStart (by simp only [numberOfDay]; omega)
  | year =>
      refine ⟨1, 12, by omega, by omega, rfl, rfl, ?_, ?_⟩
      · exact congrArg Date.monthStart (by simp only [numberOfDay]; omega)
      · exact congrArg Date.monthStart (by simp only [numberOfDay]; omega)
  | _ => cases hp

/-- The first date of a week is told by its number, if the calendar covers it. -/
theorem firstDate?_week (d : Date) :
    week.firstDate? start d = (week.firstDay start (week.numberOfDay start d)).inRange? := by
  have hinto := start.daysInto_weekday d
  have hdate : d.addDays (-(start.daysInto d.weekday : Int)) =
      week.firstDay start (week.numberOfDay start d) := by
    simp only [Date.addDays, firstDay, numberOfDay, Date.mk.injEq]
    omega
  rw [firstDate?, hdate]

/-- The first date of a period is the day with which it begins. -/
theorem firstDate?_eq (hp : p.clockLength? = none) (d : Date) :
    p.firstDate? start d = (p.firstDay start (p.numberOfDay start d)).inRange? := by
  by_cases hweek : p = week
  · subst hweek
    exact firstDate?_week d
  · obtain ⟨first, last, h⟩ := exists_spansMonths start hp hweek d
    obtain ⟨hpos, hle⟩ := h.first_mem
    have hday := one_le_daysInMonth d.year hpos hle
    rw [h.firstDate?_eq, h.firstDay_eq, Date.monthStart_eq d.year hpos hle,
      Date.ofYMD?_eq_inRange? (Nat.le_refl 1) hday]

/-- The last date of a period is the day before the next one begins, if the calendar also
has the first. -/
theorem lastDate?_eq (hp : p.clockLength? = none) (d : Date) :
    p.lastDate? start d = (p.firstDate? start d).bind fun _ =>
      ((p.firstDay start (p.numberOfDay start d + 1)).addDays (-1)).inRange? := by
  by_cases hweek : p = week
  · subst hweek
    have hlast : (week.firstDay start (week.numberOfDay start d)).addDays 6 =
        (week.firstDay start (week.numberOfDay start d + 1)).addDays (-1) := by
      simp only [firstDay, Date.addDays, Date.mk.injEq]
      omega
    rw [lastDate?, firstDate?_week, Date.inRange?]
    split
    · rw [Option.bind_some, Option.bind_some, hlast]
    · rfl
  · obtain ⟨first, last, h⟩ := exists_spansMonths start hp hweek d
    obtain ⟨hpos, hle⟩ := h.last_mem
    have hfirst := one_le_daysInMonth d.year h.first_mem.1 h.first_mem.2
    have hlast := one_le_daysInMonth d.year hpos hle
    rw [h.lastDate?_eq, h.firstDate?_eq, h.firstDay_succ_eq,
      Date.addDays_monthStart_succ d.year hpos hle, ← Date.ofYMD?_eq_inRange? hlast (Nat.le_refl _)]
    -- Both days are in the calendar exactly if their year is.
    simp only [Date.ofYMD?, Nat.le_refl, hfirst, hlast, and_true]
    split <;> rfl

/-! ## Seconds -/

/-- The number of the period of a second. -/
def number (start : WeekStart) (p : Period) (seconds : Int) : Int :=
  match p.clockLength? with
  | some length => seconds / length
  | none => p.numberOfDay start ⟨seconds / secondsPerDay⟩

/-- The second with which a period begins. -/
def begins (start : WeekStart) (p : Period) (k : Int) : Int :=
  match p.clockLength? with
  | some length => k * length
  | none => (p.firstDay start k).dayNumber * secondsPerDay

section Clock

variable {length : Nat} (hlength : p.clockLength? = some length)
include hlength

/-- The periods of the clock, and the day, last so many seconds. -/
theorem clockLength?_cases : length = 86400 ∨ length = 3600 ∨ length = 60 ∨ length = 1 := by
  cases p <;> cases hlength <;> decide

/-- No period of the clock is empty. -/
theorem clockLength?_pos : 0 < length := by
  cases p <;> cases hlength <;> decide

/-- The boundary of a period of the clock is on the same date. -/
theorem date_of_clockLength? (c : Civil) :
    (floorTo length c).date = c.date ∧ (ceilTo length c).date = c.date := by
  simp only [Civil.date, floorTo, ceilTo, Date.mk.injEq, secondsPerDay]
  rcases clockLength?_cases hlength with rfl | rfl | rfl | rfl
  all_goals omega

end Clock

/-- Which unit of the calendar a reading is in is told by its date. -/
theorem number_of_clockLength?_eq_none (hlength : p.clockLength? = none) (c : Civil) :
    p.number start c.seconds = p.numberOfDay start c.date := by
  rw [number, hlength]
  rfl

/-- The period of a second is the last one that begins no later. -/
theorem begins_le_iff {k seconds : Int} :
    p.begins start k ≤ seconds ↔ k ≤ p.number start seconds := by
  unfold begins number
  cases hlength : p.clockLength? with
  | some length =>
      have hpos := Int.natCast_pos.2 (clockLength?_pos hlength)
      exact (Int.le_ediv_iff_mul_le hpos).symm
  | none =>
      have hday := @firstDay_le_iff start p ⟨seconds / secondsPerDay⟩ k
      simp only [secondsPerDay] at *
      omega

/-- A second is in the period that has begun when the next one has not. -/
theorem number_eq_iff {k seconds : Int} :
    p.number start seconds = k ↔
      p.begins start k ≤ seconds ∧ seconds < p.begins start (k + 1) := by
  have hthis := @begins_le_iff start p k seconds
  have hnext := @begins_le_iff start p (k + 1) seconds
  omega

/-- The period of the second with which a period begins has begun with that second. -/
theorem begins_number_begins (k : Int) :
    p.begins start (p.number start (p.begins start k)) = p.begins start k := by
  have hown (k : Int) : k ≤ p.number start (p.begins start k) := begins_le_iff.1 (Int.le_refl _)
  apply Int.le_antisymm
  · exact begins_le_iff.2 (Int.le_refl _)
  · exact begins_le_iff.2 (Int.le_trans (hown k) (hown _))

/-! ## First and last nanoseconds -/

/-- The first nanosecond of a period. -/
def firstMoment (start : WeekStart) (p : Period) (k : Int) : Civil where
  seconds := p.begins start k
  nanos := 0
  nanos_lt := TimeOfDay.midnight.nanos_lt

/-- The last nanosecond of a period, the one before the next period begins. -/
def lastMoment (start : WeekStart) (p : Period) (k : Int) : Civil where
  seconds := p.begins start (k + 1) - 1
  nanos := 999999999
  nanos_lt := TimeOfDay.endOfDay.nanos_lt

/-- A civil time is in the period between whose first and last nanosecond it lies. -/
theorem number_eq_iff_between {k : Int} (hc : c.isLeapSecond = false) :
    p.number start c.seconds = k ↔
      p.firstMoment start k ≤ c ∧ c ≤ p.lastMoment start k := by
  have hnanos := Civil.isLeapSecond_eq_false_iff.1 hc
  rw [number_eq_iff, Civil.le_iff, Civil.le_iff]
  simp only [firstMoment, lastMoment, nanosPerSecond] at hnanos ⊢
  omega

/-- Periods with the same last nanosecond are the same. -/
theorem number_eq_of_lastMoment_eq {a b : Int}
    (h : p.lastMoment start (p.number start a) = p.lastMoment start (p.number start b)) :
    p.number start a = p.number start b := by
  have hend : p.begins start (p.number start a + 1) = p.begins start (p.number start b + 1) :=
    (Int.sub_left_inj 1).1 (congrArg Civil.seconds h)
  -- Neither second lies past the common end, so neither period is later than the other.
  have ha := (number_eq_iff.1 (Eq.refl (p.number start a))).2
  have hb := (number_eq_iff.1 (Eq.refl (p.number start b))).2
  have hab := @begins_le_iff start p (p.number start b + 1) a
  have hba := @begins_le_iff start p (p.number start a + 1) b
  omega

/-! ## Boundaries -/

/-- A date that the calendar covers, at a time of day. -/
theorem map_at_inRange?_eq_some_iff {t : TimeOfDay} :
    d.inRange?.map (·.at t) = some c ↔ c = d.at t ∧ c.InRange := by
  have hdate : (d.at t).InRange ↔ d.InRange := by rw [Civil.InRange, Civil.date_at]
  rw [Date.inRange?]
  split <;> rename_i hrange
  · constructor
    · rintro ⟨⟩
      exact ⟨rfl, hdate.2 hrange⟩
    · rintro ⟨rfl, -⟩
      rfl
  · constructor
    · rintro ⟨⟩
    · rintro ⟨rfl, h⟩
      exact absurd (hdate.1 h) hrange

/-- What is found as the first boundary is the first nanosecond of the period. -/
theorem boundary?_first_eq_some_iff {f : Civil} :
    p.boundary? start .first c = some f ↔
      f = p.firstMoment start (p.number start c.seconds) ∧
        (p.clockLength? = none → f.InRange) := by
  cases hlength : p.clockLength? with
  | some length =>
      have hfloor : floorTo length c = p.firstMoment start (p.number start c.seconds) := by
        simp only [floorTo, firstMoment, begins, number, hlength]
      simp only [boundary?, hlength, hfloor, Option.some.injEq, reduceCtorEq, false_implies,
        and_true]
      exact eq_comm
  | none =>
      have hfirst (k : Int) : (p.firstDay start k).at .midnight = p.firstMoment start k := by
        apply Civil.ext
        · simp [Date.at, TimeOfDay.midnight, firstMoment, begins, hlength]
        · rfl
      rw [number_of_clockLength?_eq_none hlength]
      simp only [boundary?, hlength, firstDate?_eq hlength, map_at_inRange?_eq_some_iff, hfirst,
        forall_const]

/-- What is found as the last boundary is the last nanosecond of the period. -/
theorem boundary?_last_eq_some_iff {l : Civil} :
    p.boundary? start .last c = some l ↔
      l = p.lastMoment start (p.number start c.seconds) ∧
        (p.clockLength? = none →
          (p.firstMoment start (p.number start c.seconds)).InRange ∧ l.InRange) := by
  cases hlength : p.clockLength? with
  | some length =>
      have hpos := clockLength?_pos hlength
      have hceil : ceilTo length c = p.lastMoment start (p.number start c.seconds) := by
        apply Civil.ext
        · simp only [ceilTo, lastMoment, begins, number, hlength, Int.add_mul]
          omega
        · rfl
      simp only [boundary?, hlength, hceil, Option.some.injEq, reduceCtorEq, false_implies,
        and_true]
      exact eq_comm
  | none =>
      have hfirst (k : Int) : (p.firstMoment start k).InRange ↔ (p.firstDay start k).InRange := by
        have hdate : (p.firstMoment start k).date = p.firstDay start k := by
          simp [Civil.date, firstMoment, begins, hlength]
        rw [Civil.InRange, hdate]
      have hlast (k : Int) : ((p.firstDay start (k + 1)).addDays (-1)).at .endOfDay =
          p.lastMoment start k := by
        apply Civil.ext
        · simp only [Date.at, Date.addDays, TimeOfDay.endOfDay, lastMoment, begins, hlength,
            secondsPerDay]
          omega
        · rfl
      rw [number_of_clockLength?_eq_none hlength, hfirst]
      simp only [boundary?, hlength, lastDate?_eq hlength, firstDate?_eq hlength]
      rw [Date.inRange?]
      split <;> rename_i hrange
      · simp only [Option.bind_some, map_at_inRange?_eq_some_iff, hlast, hrange, forall_const,
          true_and]
      · simp [hrange]

/-- The boundary that is found from a civil time of the calendar is one of the calendar. -/
theorem inRange_of_boundary? {edge : Edge} {b : Civil} (hc : c.InRange)
    (h : p.boundary? start edge c = some b) : b.InRange := by
  cases hlength : p.clockLength? with
  | some length =>
      obtain ⟨hfloor, hceil⟩ := date_of_clockLength? hlength c
      cases edge with
      | first =>
          simp only [boundary?, hlength, Option.some.injEq] at h
          rwa [← h, Civil.InRange, hfloor]
      | last =>
          simp only [boundary?, hlength, Option.some.injEq] at h
          rwa [← h, Civil.InRange, hceil]
  | none =>
      cases edge with
      | first => exact (boundary?_first_eq_some_iff.1 h).2 hlength
      | last => exact ((boundary?_last_eq_some_iff.1 h).2 hlength).2

end Period

end Almanac
