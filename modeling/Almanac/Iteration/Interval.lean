import Almanac.Iteration.Error
import Almanac.Operation.Period
import Almanac.Text.Blank
import Almanac.Text.Decimal

/-!
# Intervals

An interval is the length of the steps that a range is divided into: a span of time, or
a number of months of the calendar.  It is written as numbers, each with the letter of
a unit, whose total counts: `1h30m` is ninety minutes and `1Y6M` eighteen months.

A text is read from left to right with two running totals, one in seconds and one in
months.  Every number, every product and every sum on the way must fit in 64 bits with a
sign; at the end one of the totals has to be zero and the other not.

Main definitions:

- `Interval`: a span or a number of months.
- `Tally`, `Tally.read?`: what has been read, and what it is after one more character.
- `Tally.interval?`: the interval of what has been read.
- `parseInterval`: the interval that a text is.
-/

namespace Almanac

open Text

/-- The length of the steps of an iteration. -/
inductive Interval where
  /-- Time that passes. -/
  | fixed (span : Span)
  /-- Months of the calendar. -/
  | calendar (months : Nat)
deriving DecidableEq, Repr

/-- The largest number of months that an interval may have. -/
def Interval.maxMonths : Nat := 4294967295

/-! ## Units -/

namespace Period

/-- Whether a unit is counted in months; every other is a fixed number of seconds in an
interval, a day among them. -/
def isCalendar (p : Period) : Bool :=
  match p.measure with
  | .months _ => true
  | _ => false

/-- The seconds that one unit counts for in an interval. -/
def seconds (p : Period) : Nat :=
  match p.measure with
  | .seconds n => n
  | .days n => n * secondsPerDay
  | .months _ => 0

/-- The months that one unit counts for in an interval. -/
def months (p : Period) : Nat :=
  match p.measure with
  | .months n => n
  | _ => 0

end Period

/-! ## Reading -/

/-- What has been read of an interval. -/
structure Tally where
  /-- The total of the fixed units, in seconds. -/
  seconds : Int := 0
  /-- The total of the units of the calendar, in months. -/
  months : Int := 0
  /-- The digits of a number of which the unit is still to come. -/
  digits : List Char := []
deriving DecidableEq, Repr

namespace Tally

/-- A total and `n` times `scale` more, if both the product and the sum fit in 64 bits
with a sign. -/
def addTo? (total n : Int) (scale : Nat) : Option Int :=
  (count? (n * scale)).bind fun amount => count? (total + amount)

/-- The tally after `n` units, whose digits are no longer needed. -/
def add? (t : Tally) (n : Int) (p : Period) : Option Tally :=
  if p.isCalendar then
    (addTo? t.months n p.months).map fun months => { t with months := months, digits := [] }
  else
    (addTo? t.seconds n p.seconds).map fun seconds => { t with seconds := seconds, digits := [] }

/-- The tally after one more character: a digit, or the unit of the digits before it. -/
def read? (t : Tally) (c : Char) : Option Tally :=
  if c.isDigit then some { t with digits := t.digits ++ [c] }
  else if t.digits = [] then none
  else (count? (valueOf t.digits)).bind fun n => (Period.ofLetter? c).bind (t.add? n)

/-- The interval of what has been read.  No number may be left without a unit, and one of
the totals has to be zero and the other not. -/
def interval? (t : Tally) : Option Interval :=
  if t.digits ≠ [] then none
  else if 0 < t.seconds ∧ t.months = 0 then (Span.ofSeconds? t.seconds).map .fixed
  else if t.seconds = 0 ∧ 0 < t.months ∧ t.months ≤ Interval.maxMonths then
    some (.calendar t.months.toNat)
  else none

end Tally

/-! ## From text -/

/-- A text without the plus sign that it may start with. -/
def withoutPlus : List Char → List Char
  | '+' :: rest => rest
  | cs => cs

/-- The interval that a text without blanks is. -/
def Interval.ofChars? (cs : List Char) : Option Interval :=
  ((withoutPlus cs).foldlM Tally.read? {}).bind Tally.interval?

/-- The interval that a text is; a blank text asks for none. -/
def parseInterval (text : String) : Except IterationError (Option Interval) :=
  match trim text.toList with
  | [] => .ok none
  | cs =>
    match Interval.ofChars? cs with
    | some interval => .ok (some interval)
    | none => .error (.invalidInterval text)

end Almanac
