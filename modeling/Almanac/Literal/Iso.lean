import Almanac.Calendar.Civil
import Almanac.Literal.Clock
import Almanac.Zone.Abbreviation

/-!
# ISO dates as they are written

An ISO date is ten bytes of year, month and day.  A time of day can follow after a `T`
or a space, and then a zone: `Z`, an offset in hours or in hours and minutes, or a
space and an abbreviation.

Main definitions:

- `isoDay?`: the date that a text of year, month and day is.
- `numericOffset?`: the offset that a sign and two or four digits are.
- `iso?`: the civil time and the offset that a text is.
-/

namespace Almanac.Literal

open Text

/-- A year at the start of a text, after any blanks, and the text after it: at most four
digits, or a sign and any number of them. -/
def yearField (cs : List Char) : Option (Int × List Char) :=
  match trimStart cs with
  | '-' :: rest => (digitField rest.length rest).map fun (n, rest) => (-(n : Int), rest)
  | '+' :: rest => (digitField rest.length rest).map fun (n, rest) => ((n : Int), rest)
  | cs => (digitField 4 cs).map fun (n, rest) => ((n : Int), rest)

/-- The date that a text of year, month and day is. -/
def isoDay? (cs : List Char) : Option Date := do
  let (year, cs) ← yearField cs
  let cs ← skipChar '-' cs
  let (month, cs) ← numericField 2 cs
  let cs ← skipChar '-' cs
  let (day, cs) ← numericField 2 cs
  if cs = [] then Date.ofYMD? year month day else none

/-- The offset in seconds that a text is: a sign and two digits for hours, or four for
hours and minutes.  Colons among the digits do not count. -/
def numericOffset? : List Char → Option Int
  | [] => none
  | sign :: rest =>
    let digits := rest.filter (· ≠ ':')
    if (sign = '+' ∨ sign = '-') ∧ digits.all Char.isDigit then
      let hours := valueOf (digits.take 2)
      let minutes := valueOf (digits.drop 2)
      let seconds : Int := hours * 3600 + minutes * 60
      if (digits.length = 2 ∨ digits.length = 4) ∧ minutes < 60 ∧ seconds < secondsPerDay then
        some (if sign = '-' then -seconds else seconds)
      else none
    else none

/-- The zone that a text is: nothing, in which case the zone of the context is meant, or
an offset in seconds. -/
def isoZone? : List Char → Option (Option Int)
  | [] => some none
  | ['Z'] => some (some 0)
  | ' ' :: name => (Zone.abbreviationOffset? name).map some
  | cs => (numericOffset? cs).map some

/-- The characters that a time of day within an ISO date can have. -/
def isClockChar (c : Char) : Bool :=
  c.isDigit || c == ':'

/-- The time of day and the zone that follow the day in an ISO date. -/
def isoClock? (cs : List Char) : Option (TimeOfDay × Option Int) :=
  match cs with
  | [] => some (.midnight, none)
  | separator :: rest => do
    if separator = 'T' ∨ separator = ' ' then
      let time ← clockTime? (rest.takeWhile isClockChar)
      let zone ← isoZone? (rest.dropWhile isClockChar)
      some (time, zone)
    else none

/-- The civil time that an ISO date is, and the offset that is written after it. -/
def iso? (cs : List Char) : Option (Civil × Option Int) := do
  let (front, rest) ← splitAtByte 10 cs
  let day ← isoDay? front
  let (time, zone) ← isoClock? rest
  some (day.at time, zone)

end Almanac.Literal
