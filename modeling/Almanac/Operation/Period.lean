import Almanac.Eval.Error

/-!
# Periods and their boundaries

Eight units divide time into periods: seconds, minutes and hours by the clock, days,
weeks, months, quarters and years by the calendar.  This module finds the first and
the last nanosecond of the period that a civil time lies in.

Main definitions:

- `Period`: the eight units.
- `Period.firstDate?`, `Period.lastDate?`: the first and the last day of a period.
- `Period.boundary?`: the first or the last nanosecond of a period.
- `boundary`: the boundary that an operation names.
-/

namespace Almanac

/-- The units that divide time into periods. -/
inductive Period where
  | second | minute | hour | day | week | month | quarter | year
deriving DecidableEq, Repr

/-- The two ends of a period. -/
inductive Edge where
  | first | last
deriving DecidableEq, Repr

/-- How far one unit moves a date: by time that passes, by days of the calendar or by
months of the calendar. -/
inductive Measure where
  | seconds (count : Nat)
  | days (count : Nat)
  | months (count : Nat)
deriving DecidableEq, Repr

namespace Period

/-- The letter that stands for a unit after a number. -/
def letter : Period → Char
  | second => 's'
  | minute => 'm'
  | hour => 'h'
  | day => 'd'
  | week => 'w'
  | month => 'M'
  | quarter => 'q'
  | year => 'Y'

/-- All units, from the shortest. -/
def all : List Period :=
  [second, minute, hour, day, week, month, quarter, year]

/-- The unit that a letter stands for. -/
def ofLetter? (c : Char) : Option Period :=
  all.find? (·.letter == c)

/-- How far one unit moves a date. -/
def measure : Period → Measure
  | second => .seconds 1
  | minute => .seconds 60
  | hour => .seconds 3600
  | day => .days 1
  | week => .days 7
  | month => .months 1
  | quarter => .months 3
  | year => .months 12

/-! ## Boundaries -/

/-- The length in seconds of the periods of the clock and of the day. -/
def clockLength? : Period → Option Nat
  | second => some 1
  | minute => some 60
  | hour => some 3600
  | day => some 86400
  | _ => none

/-- The first date of the period that holds `d`. -/
def firstDate? (start : WeekStart) (p : Period) (d : Date) : Option Date :=
  match p with
  | week => (d.addDays (-(start.daysInto d.weekday : Int))).inRange?
  | month => Date.ofYMD? d.year d.month 1
  | quarter => Date.ofYMD? d.year (3 * d.quarter - 2) 1
  | year => Date.ofYMD? d.year 1 1
  | _ => some d

/-- The last date of the period that holds `d`.  A week is counted from its first date,
which the calendar must cover too. -/
def lastDate? (start : WeekStart) (p : Period) (d : Date) : Option Date :=
  match p with
  | week => (firstDate? start week d).bind fun first => (first.addDays 6).inRange?
  | month => Date.ofYMD? d.year d.month (daysInMonth d.year d.month)
  | quarter => Date.ofYMD? d.year (3 * d.quarter) (daysInMonth d.year (3 * d.quarter))
  | year => Date.ofYMD? d.year 12 31
  | _ => some d

/-- The first second of the period of `length` seconds that holds a civil time. -/
def floorTo (length : Nat) (c : Civil) : Civil where
  seconds := c.seconds / length * length
  nanos := 0
  nanos_lt := TimeOfDay.midnight.nanos_lt

/-- The last nanosecond of the period of `length` seconds that holds a civil time. -/
def ceilTo (length : Nat) (c : Civil) : Civil where
  seconds := c.seconds / length * length + (length - 1 : Nat)
  nanos := 999999999
  nanos_lt := TimeOfDay.endOfDay.nanos_lt

/-- The first or the last nanosecond of the period that holds a civil time.  A leap
second belongs to the second that it follows. -/
def boundary? (start : WeekStart) (edge : Edge) (p : Period) (c : Civil) : Option Civil :=
  match p.clockLength?, edge with
  | some length, .first => some (floorTo length c)
  | some length, .last => some (ceilTo length c)
  | none, .first => (p.firstDate? start c.date).map (·.at .midnight)
  | none, .last => (p.lastDate? start c.date).map (·.at .endOfDay)

end Period

/-! ## Named boundaries -/

/-- The operations that name a boundary. -/
def boundaries : List (String × Edge × Period) :=
  [("start", .first, .day), ("end", .last, .day),
    ("startofsecond", .first, .second), ("endofsecond", .last, .second),
    ("startofminute", .first, .minute), ("endofminute", .last, .minute),
    ("startofhour", .first, .hour), ("endofhour", .last, .hour),
    ("startofday", .first, .day), ("endofday", .last, .day),
    ("startofweek", .first, .week), ("endofweek", .last, .week),
    ("startofmonth", .first, .month), ("endofmonth", .last, .month),
    ("startofquarter", .first, .quarter), ("endofquarter", .last, .quarter),
    ("startofyear", .first, .year), ("endofyear", .last, .year)]

/-- The boundary that an operation names, near a civil time. -/
def boundary (start : WeekStart) (op : String) (c : Civil) : Except EvalError Civil :=
  match boundaries.lookup op with
  | some (edge, p) =>
    orOutOfRange (op.toList ++ ' ' :: 'o' :: 'f' :: ' ' :: c.text) (p.boundary? start edge c)
  | none => .error (.unknownOperation op)

end Almanac
