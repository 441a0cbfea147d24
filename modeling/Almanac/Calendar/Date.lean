import Almanac.Text.Decimal

/-!
# Gregorian dates

A date is a day number, counted from 1 January 1970, in the Gregorian calendar
extended without end in both directions.  Year, month and day of the month are
read off the day number; the number of days before a year has a closed form, and
the year of a day is a quotient corrected by at most one.

The calendar covers the years -262143 to 262142; a date outside them is out of range.

Main definitions:

- `Date.ofYMD?`: the date with a given year, month and day, if there is one.
- `Date.year`, `Date.month`, `Date.day`: the parts of a date.
- `Date.weekday`, `Date.isoWeek`: the week as seen from a date.
- `Date.InRange`: the dates that the calendar covers.
-/

namespace Almanac

open Text

/-! ## Years and months -/

/-- A year is a leap year if 4 divides it, except centuries that 400 does not divide. -/
def isLeapYear (year : Int) : Bool :=
  (year % 4 == 0 && year % 100 != 0) || year % 400 == 0

/-- The number of days in a month, 1 to 12, of a year; zero for any other month. -/
def daysInMonth (year : Int) (month : Nat) : Nat :=
  match month with
  | 1 | 3 | 5 | 7 | 8 | 10 | 12 => 31
  | 4 | 6 | 9 | 11 => 30
  | 2 => if isLeapYear year then 29 else 28
  | _ => 0

/-- The number of days from 1 January 1970 to 1 January of `year`. -/
def daysBeforeYear (year : Int) : Int :=
  365 * (year - 1) + (year - 1) / 4 - (year - 1) / 100 + (year - 1) / 400 - 719162

/-- The number of days from 1 January to the first of `month`. -/
def daysBeforeMonth (leap : Bool) (month : Nat) : Nat :=
  let extra := if leap then 1 else 0
  match month with
  | 1 => 0
  | 2 => 31
  | 3 => 59 + extra
  | 4 => 90 + extra
  | 5 => 120 + extra
  | 6 => 151 + extra
  | 7 => 181 + extra
  | 8 => 212 + extra
  | 9 => 243 + extra
  | 10 => 273 + extra
  | 11 => 304 + extra
  | _ => 334 + extra

/-- The month that holds the day with `ordinal` days of the year before it. -/
def monthOfOrdinal (leap : Bool) (ordinal : Nat) : Nat :=
  let extra := if leap then 1 else 0
  if ordinal < 31 then 1
  else if ordinal < 59 + extra then 2
  else if ordinal < 90 + extra then 3
  else if ordinal < 120 + extra then 4
  else if ordinal < 151 + extra then 5
  else if ordinal < 181 + extra then 6
  else if ordinal < 212 + extra then 7
  else if ordinal < 243 + extra then 8
  else if ordinal < 273 + extra then 9
  else if ordinal < 304 + extra then 10
  else if ordinal < 334 + extra then 11
  else 12

/-- The year that holds the day `n` days after 1 January 1970.

The mean year has 146097/400 days, and the year found by it is at most one away. -/
def yearOfDay (n : Int) : Int :=
  let guess := (n + 719162) * 400 / 146097 + 1
  if n < daysBeforeYear guess then guess - 1
  else if daysBeforeYear (guess + 1) ≤ n then guess + 1
  else guess

/-! ## Dates -/

/-- A day of the Gregorian calendar. -/
structure Date where
  /-- The number of days since 1 January 1970. -/
  dayNumber : Int
deriving DecidableEq, Repr

namespace Date

/-- The first year that the calendar covers. -/
def minYear : Int := -262143

/-- The last year that the calendar covers. -/
def maxYear : Int := 262142

/-- The day number of the first day that the calendar covers. -/
def minDay : Int := daysBeforeYear minYear

/-- The day number of the last day that the calendar covers. -/
def maxDay : Int := daysBeforeYear (maxYear + 1) - 1

/-- The dates that the calendar covers. -/
def InRange (d : Date) : Prop :=
  minDay ≤ d.dayNumber ∧ d.dayNumber ≤ maxDay

instance (d : Date) : Decidable d.InRange :=
  inferInstanceAs (Decidable (_ ∧ _))

/-- A date, unless it is outside the calendar. -/
def inRange? (d : Date) : Option Date :=
  if d.InRange then some d else none

/-- The date `n` days later. -/
def addDays (d : Date) (n : Int) : Date :=
  ⟨d.dayNumber + n⟩

/-- The date of the given year, month and day of the month, with no check that the month
has that day. -/
def ofYMD (year : Int) (month day : Nat) : Date :=
  ⟨daysBeforeYear year + daysBeforeMonth (isLeapYear year) month + (day - 1 : Nat)⟩

/-- The date of the given year, month and day of the month, if the calendar has it. -/
def ofYMD? (year : Int) (month day : Nat) : Option Date :=
  if minYear ≤ year ∧ year ≤ maxYear ∧ 1 ≤ day ∧ day ≤ daysInMonth year month then
    some (ofYMD year month day)
  else none

/-- The year of a date. -/
def year (d : Date) : Int :=
  yearOfDay d.dayNumber

/-- The number of days of its year before a date. -/
def ordinal (d : Date) : Nat :=
  (d.dayNumber - daysBeforeYear d.year).toNat

/-- The month of a date, 1 to 12. -/
def month (d : Date) : Nat :=
  monthOfOrdinal (isLeapYear d.year) d.ordinal

/-- The day of the month of a date, from 1. -/
def day (d : Date) : Nat :=
  d.ordinal - daysBeforeMonth (isLeapYear d.year) d.month + 1

/-- The quarter of a date, 1 to 4. -/
def quarter (d : Date) : Nat :=
  (d.month - 1) / 3 + 1

/-- The same year and month with another day of the month, if there is one. -/
def withDay? (d : Date) (day : Nat) : Option Date :=
  ofYMD? d.year d.month day

end Date

/-! ## Weeks -/

/-- The days of the week. -/
inductive Weekday where
  | monday | tuesday | wednesday | thursday | friday | saturday | sunday
deriving DecidableEq, Repr

namespace Weekday

/-- The number of days since Monday. -/
def sinceMonday : Weekday → Nat
  | monday => 0
  | tuesday => 1
  | wednesday => 2
  | thursday => 3
  | friday => 4
  | saturday => 5
  | sunday => 6

/-- The number of days since Sunday. -/
def sinceSunday (w : Weekday) : Nat :=
  (w.sinceMonday + 1) % 7

/-- The weekday that many days after Monday, counted modulo seven. -/
def ofSinceMonday (n : Nat) : Weekday :=
  match n % 7 with
  | 0 => monday
  | 1 => tuesday
  | 2 => wednesday
  | 3 => thursday
  | 4 => friday
  | 5 => saturday
  | _ => sunday

/-- The English name. -/
def name : Weekday → String
  | monday => "Monday"
  | tuesday => "Tuesday"
  | wednesday => "Wednesday"
  | thursday => "Thursday"
  | friday => "Friday"
  | saturday => "Saturday"
  | sunday => "Sunday"

/-- The first three letters of the English name. -/
def shortName : Weekday → String
  | monday => "Mon"
  | tuesday => "Tue"
  | wednesday => "Wed"
  | thursday => "Thu"
  | friday => "Fri"
  | saturday => "Sat"
  | sunday => "Sun"

/-- The seven weekdays, from Monday. -/
def all : List Weekday :=
  [monday, tuesday, wednesday, thursday, friday, saturday, sunday]

end Weekday

/-- The convention for the first day of a week. -/
inductive WeekStart where
  | monday | sunday
deriving DecidableEq, Repr, Inhabited

/-- The number of days since the week began. -/
def WeekStart.daysInto (start : WeekStart) (w : Weekday) : Nat :=
  match start with
  | .monday => w.sinceMonday
  | .sunday => w.sinceSunday

namespace Date

/-- The weekday of a date; 1 January 1970 was a Thursday. -/
def weekday (d : Date) : Weekday :=
  Weekday.ofSinceMonday ((d.dayNumber + 3) % 7).toNat

/-- The Thursday of the week, from Monday to Sunday, that a date lies in. -/
def isoThursday (d : Date) : Date :=
  d.addDays (3 - (d.weekday.sinceMonday : Int))

/-- The year that owns a week is the year of its Thursday. -/
def isoYear (d : Date) : Int :=
  d.isoThursday.year

/-- The number of a week within the year that owns it, from 1. -/
def isoWeek (d : Date) : Nat :=
  d.isoThursday.ordinal / 7 + 1

/-- The number of the week within the calendar year when weeks begin on the given day;
the days before the first such day are in week 0. -/
def weekOfYear (d : Date) (start : WeekStart) : Nat :=
  (d.ordinal + 7 - start.daysInto d.weekday) / 7

end Date

/-! ## Text -/

/-- The English names of the months. -/
def monthName : Nat → String
  | 1 => "January"
  | 2 => "February"
  | 3 => "March"
  | 4 => "April"
  | 5 => "May"
  | 6 => "June"
  | 7 => "July"
  | 8 => "August"
  | 9 => "September"
  | 10 => "October"
  | 11 => "November"
  | _ => "December"

/-- The first three letters of the name of a month. -/
def monthShortName (month : Nat) : String :=
  String.ofList ((monthName month).toList.take 3)

/-- A year in four digits; outside 0 to 9999 with its sign and at least four digits. -/
def yearText (year : Int) : List Char :=
  if 0 ≤ year ∧ year ≤ 9999 then padded 4 year.toNat
  else (if year < 0 then '-' else '+') :: padded 4 year.natAbs

/-- A date as year, month and day. -/
def Date.text (d : Date) : List Char :=
  yearText d.year ++ '-' :: padded 2 d.month ++ '-' :: padded 2 d.day

end Almanac
