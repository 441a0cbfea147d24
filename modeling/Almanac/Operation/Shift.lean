import Almanac.Operation.Period

/-!
# Shifts

A shift moves an instant by a number of units.  Seconds, minutes and hours are time
that passes, so the clocks of the zone do not matter.  Days and longer units keep the
time of day on the wall: they move the civil time that is consulted once the amount is known to fit,
and the result is the instant that the zone then means by it.

Main definitions:

- `shift`: an instant moved by an amount of a unit.
- `shiftBy`: an instant moved as a text such as `+3d` says.
-/

namespace Almanac

open Text

/-- The instant `amount` units after `i`, in the zone whose calendar counts.  The amount
in seconds, days or months must fit in 64 bits with a sign. -/
def shift (z : Zone) (i : Instant) (amount : Int) (unit : Char) : Except EvalError Instant :=
  let asked := signed amount ++ [unit]
  match Period.ofLetter? unit with
  | none => .error (.unknownUnit (String.singleton unit))
  | some p =>
    match p.measure with
    | .seconds n =>
      orOutOfRange asked (((count? (amount * n)).bind Span.ofSeconds?).bind i.add?)
    | .days n => do
      let span ← orOutOfRange asked ((count? (amount * n)).bind Span.ofDays?)
      let shown ← z.consult i
      let moved ← orOutOfRange asked (shown.add? span)
      z.localize moved
    | .months n => do
      let months ← orOutOfRange asked (count? (amount * n))
      let shown ← z.consult i
      let moved ← orOutOfRange asked (shown.addMonths? months)
      z.localize moved

/-- The sign that a text starts with, plus if there is none, and the text after it. -/
def splitSign : List Char → Int × List Char
  | '+' :: rest => (1, rest)
  | '-' :: rest => (-1, rest)
  | cs => (1, cs)

/-- The instant that a text such as `+3d` moves `i` to: an optional sign, digits and the
letter of a unit. -/
def shiftBy (z : Zone) (i : Instant) (text : List Char) : Except EvalError Instant :=
  let (sign, rest) := splitSign text
  let digits := rest.takeWhile Char.isDigit
  if digits = [] then .error (.invalidDateValue (String.ofList text))
  else
    match rest.dropWhile Char.isDigit with
    | [] => .error (.invalidDateValue (String.ofList text))
    | [unit] => do
      let amount ← orOutOfRange text (count? (valueOf digits))
      shift z i (sign * amount) unit
    | units => .error (.unknownUnit (String.ofList units))

end Almanac
