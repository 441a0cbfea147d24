import Almanac.Proofs.Calendar.MonthLength
import Almanac.Proofs.Eval.Dependence
import Almanac.Proofs.Eval.Failure
import Almanac.Proofs.Operation.Idempotence
import Almanac.Proofs.Operation.Shift

/-!
# Boundaries that the calendar covers

A boundary is a date and a time of day, and both are put together from numbers that could be
wrong: a month might not have the day, a clock might not show the second.  From a civil time of the
calendar none of these checks ever fails.  What can fail is only to count days to the ends of a
week, as the calendar begins and ends in the middle of one.

Main definitions:

- `Period.edgeDate?`, `Period.edgeTime?`: the date and the time of day of a boundary, each checked.
- `WeekStart.IsWeekOf`: the week of a day, by its first and its last day.

Main results:

- Theorem `TimeOfDay.ofParts?_eq_some_iff`: a time of day is put together from what it shows.
- Theorem `Period.edgeTime?_of_clockLength?`: the checked time of day is the one found by division.
- Theorem `Period.exists_edgeDate?`: other than for weeks, the checked date is found.
- Theorem `boundary_of_lookup`: a boundary is the checked date at the checked time of day.
- Theorem `boundary_covered`: which boundaries are out of range.
-/

namespace Almanac

variable {start : WeekStart} {edge : Edge} {p : Period} {length : Nat} {c : Civil}
  {d first last : Date} {op : String}

/-! ## Times of day -/

/-- A time of day is put together from the hour, minute, second and nanosecond that it shows. -/
theorem TimeOfDay.ofParts?_eq_some_iff {hour minute second nanos : Nat} {t : TimeOfDay} :
    ofParts? hour minute second nanos = some t ↔
      t.hour = hour ∧ t.minute = minute ∧ t.second = second ∧ t.nanos = nanos ∧
        nanos < nanosPerSecond := by
  rw [ofParts?]
  constructor
  · intro h
    split at h
    · rename_i hparts
      cases h
      refine ⟨?_, ?_, ?_, rfl, hparts.2.2.2⟩
      all_goals
        simp only [TimeOfDay.hour, TimeOfDay.minute, TimeOfDay.second]
        omega
    · cases h
  · rintro ⟨rfl, rfl, rfl, rfl, hnanos⟩
    have hseconds := t.seconds_lt
    have hparts : t.hour < 24 ∧ t.minute < 60 ∧ t.second < 60 ∧ t.nanos < nanosPerSecond := by
      simp only [hour, minute, second, secondsPerDay] at *
      omega
    have hsum : t.hour * 3600 + t.minute * 60 + t.second = t.seconds := by
      simp only [hour, minute, second]
      omega
    simp only [dif_pos hparts, hsum]

namespace Period

/-- The time of day of a boundary, put together from numbers that a clock has to show. -/
def edgeTime? (edge : Edge) (p : Period) (t : TimeOfDay) : Option TimeOfDay :=
  match p, edge with
  | second, .first => TimeOfDay.ofParts? t.hour t.minute t.second 0
  | second, .last => TimeOfDay.ofParts? t.hour t.minute t.second 999999999
  | minute, .first => TimeOfDay.ofParts? t.hour t.minute 0 0
  | minute, .last => TimeOfDay.ofParts? t.hour t.minute 59 999999999
  | hour, .first => TimeOfDay.ofParts? t.hour 0 0 0
  | hour, .last => TimeOfDay.ofParts? t.hour 59 59 999999999
  | _, .first => some .midnight
  | _, .last => TimeOfDay.ofParts? 23 59 59 999999999

/-- The checked time of day of a boundary by the clock is the one found by division. -/
theorem edgeTime?_of_clockLength? (hlength : p.clockLength? = some length) (c : Civil) :
    p.edgeTime? .first c.time = some (floorTo length c).time ∧
      p.edgeTime? .last c.time = some (ceilTo length c).time := by
  cases p <;> cases hlength
  case day =>
    simp only [edgeTime?, TimeOfDay.midnight, TimeOfDay.ofParts?_eq_some_iff, Option.some.injEq,
      TimeOfDay.mk.injEq, TimeOfDay.hour, TimeOfDay.minute, TimeOfDay.second, Civil.time, floorTo,
      ceilTo, secondsPerDay, nanosPerSecond, true_and, and_true]
    omega
  all_goals
    simp only [edgeTime?, TimeOfDay.ofParts?_eq_some_iff, TimeOfDay.hour, TimeOfDay.minute,
      TimeOfDay.second, Civil.time, floorTo, ceilTo, secondsPerDay, nanosPerSecond, true_and]
    omega

/-- The longer periods begin at midnight and end with the day. -/
theorem edgeTime?_of_clockLength?_eq_none (hlength : p.clockLength? = none) (t : TimeOfDay) :
    p.edgeTime? .first t = some .midnight ∧ p.edgeTime? .last t = some .endOfDay := by
  have hend : TimeOfDay.ofParts? 23 59 59 999999999 = some .endOfDay := by decide
  cases p <;> cases hlength <;> exact ⟨rfl, hend⟩

/-! ## Dates -/

/-- The date of a boundary, which the calendar has to cover. -/
def edgeDate? (start : WeekStart) (edge : Edge) (p : Period) (d : Date) : Option Date :=
  match edge with
  | .first => p.firstDate? start d
  | .last => p.lastDate? start d

/-- A unit of the clock begins and ends on one day. -/
theorem edgeDate?_of_clockLength? (hlength : p.clockLength? = some length) (d : Date) :
    p.edgeDate? start edge d = some d := by
  cases p <;> cases hlength <;> cases edge <;> rfl

/-- The days that there are in a year of the calendar are found. -/
theorem exists_ofYMD?_inRange {year : Int} {month day : Nat}
    (hyear : Date.minYear ≤ year ∧ year ≤ Date.maxYear) (hday : HasDay year month day) :
    ∃ e, Date.ofYMD? year month day = some e ∧ e.InRange := by
  obtain ⟨e, he⟩ := Date.exists_ofYMD?_iff.2 ⟨hyear, hday⟩
  exact ⟨e, he, (Date.ofYMD?_eq_some_iff_parts.1 he).1⟩

/-- From a date of the calendar, the date of a boundary is found, other than for weeks. -/
theorem exists_edgeDate? (hp : p ≠ week) (hd : d.InRange) (start : WeekStart) (edge : Edge) :
    ∃ e, p.edgeDate? start edge d = some e ∧ e.InRange := by
  cases hlength : p.clockLength? with
  | some length => exact ⟨d, edgeDate?_of_clockLength? hlength d, hd⟩
  | none =>
      -- A month, a quarter or a year, which all lie within the year of the date.
      have hyear := Date.inRange_iff_year.1 hd
      obtain ⟨first, last, h⟩ := exists_spansMonths start hlength hp d
      have hfirst := one_le_daysInMonth d.year h.first_mem.1 h.first_mem.2
      have hlast := one_le_daysInMonth d.year h.last_mem.1 h.last_mem.2
      cases edge with
      | first =>
          rw [edgeDate?, h.firstDate?_eq]
          exact exists_ofYMD?_inRange hyear (hasDay_iff.2 ⟨Nat.le_refl 1, hfirst⟩)
      | last =>
          rw [edgeDate?, h.lastDate?_eq]
          exact exists_ofYMD?_inRange hyear (hasDay_iff.2 ⟨hlast, Nat.le_refl _⟩)

/-- A boundary is the checked date at the checked time of day, and the time of day is always
found. -/
theorem boundary?_eq_map_edgeDate? (start : WeekStart) (edge : Edge) (p : Period) (c : Civil) :
    ∃ t, p.edgeTime? edge c.time = some t ∧
      p.boundary? start edge c = (p.edgeDate? start edge c.date).map (·.at t) := by
  cases hlength : p.clockLength? with
  | some length =>
      obtain ⟨hfirst, hlast⟩ := edgeTime?_of_clockLength? hlength c
      obtain ⟨hfloor, hceil⟩ := date_of_clockLength? hlength c
      rw [edgeDate?_of_clockLength? hlength]
      cases edge with
      | first =>
          refine ⟨_, hfirst, ?_⟩
          rw [Option.map_some, ← hfloor, Civil.at_date_time]
          simp only [boundary?, hlength]
      | last =>
          refine ⟨_, hlast, ?_⟩
          rw [Option.map_some, ← hceil, Civil.at_date_time]
          simp only [boundary?, hlength]
  | none =>
      obtain ⟨hfirst, hlast⟩ := edgeTime?_of_clockLength?_eq_none hlength c.time
      cases edge with
      | first => exact ⟨_, hfirst, by simp only [boundary?, hlength, edgeDate?]⟩
      | last => exact ⟨_, hlast, by simp only [boundary?, hlength, edgeDate?]⟩

end Period

/-! ## Weeks -/

/-- The check fails on the dates that the calendar does not have. -/
theorem Date.inRange?_eq_none_iff : d.inRange? = none ↔ ¬ d.InRange := by
  rw [Date.inRange?, ite_eq_right_iff]
  simp only [reduceCtorEq, imp_false]

namespace WeekStart

/-- The weekday with which weeks begin. -/
def weekday : WeekStart → Weekday
  | monday => .monday
  | sunday => .sunday

/-- The week of a day: the seven days from the weekday with which weeks begin that the day is one
of. -/
structure IsWeekOf (start : WeekStart) (d first last : Date) : Prop where
  weekday : first.weekday = start.weekday
  last_eq : last = first.addDays 6
  begun : first.dayNumber ≤ d.dayNumber
  lasts : d.dayNumber ≤ last.dayNumber

/-- A week begins on its first weekday. -/
theorem daysInto_eq_zero_iff {w : Weekday} : start.daysInto w = 0 ↔ w = start.weekday := by
  cases start <;> cases w <;> decide

/-- There is one week of a day. -/
theorem isWeekOf_iff :
    start.IsWeekOf d first last ↔
      first = Period.week.firstDay start (Period.week.numberOfDay start d) ∧
        last = first.addDays 6 := by
  have hinto := start.daysInto_weekday first
  -- As day numbers the two sides only differ by divisions by seven.
  have hfirst : first = Period.week.firstDay start (Period.week.numberOfDay start d) ↔
      first.dayNumber = 7 * ((d.dayNumber + start.daysInto .thursday) / 7) -
        start.daysInto .thursday := by
    cases first
    simp only [Period.firstDay, Period.numberOfDay, Date.mk.injEq]
  rw [hfirst]
  constructor
  · rintro ⟨hweekday, rfl, hbegun, hlasts⟩
    rw [← daysInto_eq_zero_iff] at hweekday
    simp only [Date.addDays] at hlasts
    exact ⟨by omega, rfl⟩
  · rintro ⟨hday, rfl⟩
    have hweekday : start.daysInto first.weekday = 0 := by omega
    refine ⟨daysInto_eq_zero_iff.1 hweekday, rfl, by omega, ?_⟩
    simp only [Date.addDays]
    omega

/-- Every day is in exactly one week. -/
theorem exists_isWeekOf (start : WeekStart) (d : Date) :
    ∃ first last, ∀ a b, start.IsWeekOf d a b ↔ a = first ∧ b = last := by
  refine ⟨Period.week.firstDay start (Period.week.numberOfDay start d),
    (Period.week.firstDay start (Period.week.numberOfDay start d)).addDays 6, fun a b => ?_⟩
  rw [isWeekOf_iff]
  constructor
  · rintro ⟨rfl, rfl⟩
    exact ⟨rfl, rfl⟩
  · rintro ⟨rfl, rfl⟩
    exact ⟨rfl, rfl⟩

/-- The first date of a week is its first day, if the calendar covers that. -/
theorem IsWeekOf.edgeDate?_first (h : start.IsWeekOf d first last) :
    Period.week.edgeDate? start .first d = first.inRange? := by
  rw [(isWeekOf_iff.1 h).1]
  exact Period.firstDate?_week d

/-- The last date of a week is its last day, if the calendar covers the first and the last. -/
theorem IsWeekOf.edgeDate?_last (h : start.IsWeekOf d first last) :
    Period.week.edgeDate? start .last d = first.inRange?.bind fun _ => last.inRange? := by
  have hweek : Period.week.clockLength? = none := rfl
  have hfirst : Period.week.firstDate? start d = first.inRange? := h.edgeDate?_first
  have hlast : (Period.week.firstDay start (Period.week.numberOfDay start d + 1)).addDays (-1) =
      last := by
    obtain ⟨rfl, rfl⟩ := isWeekOf_iff.1 h
    simp only [Period.firstDay, Date.addDays, Date.mk.injEq]
    omega
  rw [← hlast, ← hfirst]
  exact Period.lastDate?_eq hweek d

/-- The first day of a week is not covered exactly if it lies before the calendar: after the
calendar it never lies. -/
theorem IsWeekOf.edgeDate?_first_eq_none_iff (h : start.IsWeekOf d first last) (hd : d.InRange) :
    Period.week.edgeDate? start .first d = none ↔
      first.dayNumber < (Date.ofYMD (-262143) 1 1).dayNumber := by
  have hbegun := h.begun
  have hmax := (Date.inRange_iff_ends.1 hd).2
  rw [h.edgeDate?_first, Date.inRange?_eq_none_iff, Date.inRange_iff_ends]
  omega

/-- The last day of a week is not found exactly if the calendar lacks its first or its last day. -/
theorem IsWeekOf.edgeDate?_last_eq_none_iff (h : start.IsWeekOf d first last) :
    Period.week.edgeDate? start .last d = none ↔ ¬ first.InRange ∨ ¬ last.InRange := by
  rw [h.edgeDate?_last, Date.inRange?]
  split <;> rename_i hfirst
  · simp only [Option.bind_some, Date.inRange?_eq_none_iff, hfirst, not_true_eq_false, false_or]
  · simp only [Option.bind_none, hfirst, not_false_eq_true, true_or]

end WeekStart

/-! ## Named boundaries -/

/-- An operation that names a boundary leads to the checked date at the checked time of day, or
says that it is out of range if there is no such date. -/
theorem boundary_of_lookup (hop : boundaries.lookup op = some (edge, p)) (start : WeekStart)
    (c : Civil) :
    ∃ t, p.edgeTime? edge c.time = some t ∧
      boundary start op c =
        match p.edgeDate? start edge c.date with
        | some d => .ok (d.at t)
        | none => .error (.outOfRange (op ++ " of " ++ String.ofList c.text)) := by
  obtain ⟨t, ht, hboundary⟩ := Period.boundary?_eq_map_edgeDate? start edge p c
  have htext : String.ofList (op.toList ++ ' ' :: 'o' :: 'f' :: ' ' :: c.text) =
      op ++ " of " ++ String.ofList c.text := by
    apply String.toList_inj.1
    simp
  refine ⟨t, ht, ?_⟩
  simp only [boundary, hop, hboundary]
  cases p.edgeDate? start edge c.date with
  | some d => rfl
  | none => rw [Option.map_none, orOutOfRange, htext]

section Outcomes

variable (hop : boundaries.lookup op = some (edge, p)) (start : WeekStart) (c : Civil)
include hop

/-- A boundary is out of range if its day is. -/
theorem boundary_eq_outOfRange_iff :
    boundary start op c = .error (.outOfRange (op ++ " of " ++ String.ofList c.text)) ↔
      p.edgeDate? start edge c.date = none := by
  obtain ⟨t, -, hboundary⟩ := boundary_of_lookup hop start c
  rw [hboundary]
  cases p.edgeDate? start edge c.date <;> simp

/-- A boundary is found if its day is. -/
theorem exists_boundary_iff :
    (∃ r, boundary start op c = .ok r) ↔ p.edgeDate? start edge c.date ≠ none := by
  obtain ⟨t, -, hboundary⟩ := boundary_of_lookup hop start c
  rw [hboundary]
  cases p.edgeDate? start edge c.date <;> simp

end Outcomes

/-- A name that is neither of the two that lead to a week names a boundary of another period. -/
theorem exists_lookup_of_ne_week (hop : op ∈ boundaries.map Prod.fst) (hfirst : op ≠ "startofweek")
    (hlast : op ≠ "endofweek") :
    ∃ edge p, boundaries.lookup op = some (edge, p) ∧ p ≠ .week := by
  cases hlookup : boundaries.lookup op with
  | none => exact absurd hop (Operation.lookup_boundaries_eq_none_iff.1 hlookup)
  | some entry =>
      refine ⟨entry.1, entry.2, rfl, fun hp => ?_⟩
      have hweek : boundaries.lookup op = some (entry.1, .week) := by rw [hlookup, ← hp]
      rcases @namesWeek_of_lookup ⟨op, ""⟩ _ hweek with h | h
      · exact hfirst h
      · exact hlast h

/-- The boundaries that are out of range at a civil time of the calendar.  None is but those of
weeks: for any other name that there is, the date and the time of day pass all checks.  The
beginning of a week is out of range exactly if it lies before the calendar, and its end exactly if
either lies outside.  A name that there is not is unknown.  And the table of months agrees with the
calendar: the number of days of a month is its greatest day, and the calendar finds the days that
there are in its years. -/
theorem boundary_covered (start : WeekStart) {c : Civil} (hc : c.InRange) :
    (∀ op ∈ boundaries.map Prod.fst, op ≠ "startofweek" → op ≠ "endofweek" →
      ∃ edge p d t, boundaries.lookup op = some (edge, p) ∧
        p.edgeDate? start edge c.date = some d ∧ p.edgeTime? edge c.time = some t ∧
        boundary start op c = .ok (d.at t) ∧ (d.at t).InRange) ∧
    (∃ first last, (∀ a b, start.IsWeekOf c.date a b ↔ a = first ∧ b = last) ∧
      (boundary start "startofweek" c =
          .error (.outOfRange ("startofweek of " ++ String.ofList c.text)) ↔
        first.dayNumber < (Date.ofYMD (-262143) 1 1).dayNumber) ∧
      ((∃ r, boundary start "startofweek" c = .ok r) ↔
        (Date.ofYMD (-262143) 1 1).dayNumber ≤ first.dayNumber) ∧
      (boundary start "endofweek" c =
          .error (.outOfRange ("endofweek of " ++ String.ofList c.text)) ↔
        ¬ first.InRange ∨ ¬ last.InRange) ∧
      ((∃ r, boundary start "endofweek" c = .ok r) ↔ first.InRange ∧ last.InRange)) ∧
    (∀ op, op ∉ boundaries.map Prod.fst → boundary start op c = .error (.unknownOperation op)) ∧
    ∀ (year : Int) (month : Nat), 1 ≤ month → month ≤ 12 →
      IsGreatest {day | HasDay year month day} (daysInMonth year month) ∧
      ∀ day, (∃ d, Date.ofYMD? year month day = some d) ↔
        (Date.minYear ≤ year ∧ year ≤ Date.maxYear) ∧ HasDay year month day := by
  refine ⟨fun op hop hfirst hlast => ?_, ?_, fun op hop => ?_, fun year month hpos hle =>
    ⟨isGreatest_daysInMonth year hpos hle, fun day => Date.exists_ofYMD?_iff⟩⟩
  · obtain ⟨edge, p, hlookup, hp⟩ := exists_lookup_of_ne_week hop hfirst hlast
    obtain ⟨d, hd, hrange⟩ := Period.exists_edgeDate? hp hc start edge
    obtain ⟨t, ht, hboundary⟩ := boundary_of_lookup hlookup start c
    rw [hd] at hboundary
    exact ⟨edge, p, d, t, hlookup, hd, ht, hboundary, by rwa [Civil.InRange, Civil.date_at]⟩
  · obtain ⟨first, last, hunique⟩ := start.exists_isWeekOf c.date
    have hweek := (hunique first last).2 ⟨rfl, rfl⟩
    have hstart : boundaries.lookup "startofweek" = some (.first, .week) := by decide
    have hend : boundaries.lookup "endofweek" = some (.last, .week) := by decide
    have hfirst := hweek.edgeDate?_first_eq_none_iff hc
    have hlast := hweek.edgeDate?_last_eq_none_iff
    refine ⟨first, last, hunique, ?_, ?_, ?_, ?_⟩
    · rw [← hfirst]
      exact boundary_eq_outOfRange_iff hstart start c
    · rw [← Int.not_lt, ← hfirst]
      exact exists_boundary_iff hstart start c
    · rw [← hlast]
      exact boundary_eq_outOfRange_iff hend start c
    · rw [exists_boundary_iff hend, ne_eq, hlast, not_or, not_not, not_not]
  · rw [boundary, Operation.lookup_boundaries_eq_none_iff.2 hop]

/-- A leap second on the first day of the calendar, a Thursday. -/
def firstThursday : Civil :=
  (Date.ofYMD (-262143) 1 1).at { seconds := 45299, nanos := 1625000000 }

/-- In the first days of the calendar: its week begins before it, but its quarter ends on it. -/
theorem boundary_covered_firstThursday :
    firstThursday.InRange ∧
      boundary .monday "startofweek" firstThursday =
        .error (.outOfRange "startofweek of -262143-01-01 12:34:60.625") ∧
      (∃ r, boundary .monday "endofquarter" firstThursday = .ok r ∧ r.InRange) ∧
      boundary .monday "endofcentury" firstThursday = .error (.unknownOperation "endofcentury") ∧
      IsGreatest {day | HasDay (-262143) 2 day} 28 := by
  have hrange : firstThursday.InRange := by decide
  obtain ⟨hknown, ⟨first, last, hunique, hstart, -⟩, hunknown, hmonths⟩ :=
    boundary_covered .monday hrange
  have hweek : WeekStart.monday.IsWeekOf firstThursday.date
      ((Date.ofYMD (-262143) 1 1).addDays (-3)) ((Date.ofYMD (-262143) 1 1).addDays 3) :=
    { weekday := by decide
      last_eq := by decide
      begun := by decide
      lasts := by decide }
  obtain ⟨rfl, -⟩ := (hunique _ _).1 hweek
  obtain ⟨edge, p, d, t, -, -, -, hend, hcovered⟩ :=
    hknown "endofquarter" (by decide) (by decide) (by decide)
  exact ⟨hrange, hstart.2 (by decide), ⟨_, hend, hcovered⟩, hunknown _ (by decide),
    (hmonths (-262143) 2 (by decide) (by decide)).1⟩

end Almanac
