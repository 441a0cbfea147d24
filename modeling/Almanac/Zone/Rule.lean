import Almanac.Zone.Basic

/-!
# Yearly transitions

Most zones change their clocks twice a year, each time on a Sunday of a month that is
fixed by rule.  This module turns such rules into lists of transitions.

Main definitions:

- `sundayOf`: the first, second or last Sunday of a month.
- `YearlyRule.transitionIn`: the transition that a rule makes in a year.
- `seasons`: the transitions of several rules over a run of years.
- `begins`: one transition at a given minute of UTC.
-/

namespace Almanac

/-- Which Sunday of a month is meant. -/
inductive Sunday where
  | first | second | last
deriving DecidableEq, Repr

/-- The first Sunday on or after a date. -/
def sundayFrom (d : Date) : Date :=
  d.addDays ((7 - d.weekday.sinceSunday) % 7 : Nat)

/-- The given Sunday of a month. -/
def sundayOf (year : Int) (month : Nat) : Sunday → Date
  | .first => sundayFrom (Date.ofYMD year month 1)
  | .second => sundayFrom (Date.ofYMD year month 8)
  | .last => sundayFrom (Date.ofYMD year month (daysInMonth year month - 6))

/-- A change of clocks on a Sunday of each year. -/
structure YearlyRule where
  /-- The month of the change. -/
  month : Nat
  /-- The Sunday of that month. -/
  sunday : Sunday
  /-- Hours and minutes of UTC since that Sunday began, negative before it. -/
  hour : Int
  /-- Minutes of UTC past that hour. -/
  minute : Int
  /-- The regime that the change begins. -/
  regime : Regime

/-- The transition that a rule makes in a year. -/
def YearlyRule.transitionIn (rule : YearlyRule) (year : Int) : Transition where
  start := (sundayOf year rule.month rule.sunday).dayNumber * secondsPerDay +
    rule.hour * 3600 + rule.minute * 60
  regime := rule.regime

/-- The transitions that the rules make, in the order given, in each of `count` years from
`year` on. -/
def seasons (year : Int) (count : Nat) (rules : List YearlyRule) : List Transition :=
  (List.range count).flatMap fun k => rules.map (·.transitionIn (year + k))

/-- The transition to a regime at a minute of UTC. -/
def begins (year : Int) (month day : Nat) (hour minute : Int) (regime : Regime) : Transition where
  start := (Date.ofYMD year month day).dayNumber * secondsPerDay + hour * 3600 + minute * 60
  regime := regime

end Almanac
