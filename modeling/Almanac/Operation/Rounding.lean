import Almanac.Operation.Period

/-!
# Rounding

A civil time can be cut or rounded to a day, an hour or a minute.  To round is to go
to the nearest boundary; from the middle it goes up, and what matters is the second
alone, not the fraction past it.

Main definitions:

- `roundingLength?`: the length of the unit that an argument names.
- `trunc`, `round`: a civil time cut or rounded to a unit.
-/

namespace Almanac

/-- The length in seconds of the unit that an argument names; no argument names the day. -/
def roundingLength? (unit : String) : Option Nat :=
  [("", 86400), ("day", 86400), ("hour", 3600), ("minute", 60)].lookup unit

/-- Whether a civil time lies in the second half of its period of `length` seconds. -/
def inSecondHalf (length : Nat) (c : Civil) : Bool :=
  length ≤ 2 * (c.seconds % length)

/-- A civil time cut to the unit that an argument names. -/
def trunc (unit : String) (c : Civil) : Except EvalError Civil :=
  match roundingLength? unit with
  | some length => .ok (Period.floorTo length c)
  | none => .error (.unknownUnit unit)

/-- A civil time rounded to the unit that an argument names, a half up. -/
def round (unit : String) (c : Civil) : Except EvalError Civil :=
  match roundingLength? unit with
  | some length =>
    let below := Period.floorTo length c
    if inSecondHalf length c then
      orOutOfRange c.text ((Span.ofSeconds? length).bind below.add?)
    else .ok below
  | none => .error (.unknownUnit unit)

end Almanac
