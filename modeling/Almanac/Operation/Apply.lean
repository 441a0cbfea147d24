import Almanac.Expr.Basic
import Almanac.Literal.Clock
import Almanac.Operation.Rounding
import Almanac.Operation.Shift

/-!
# Operations of the calendar

An operation has a name and an argument.  The signs shift an instant; `day` and `time`
replace a part of its civil time; `round` and `trunc` bring it to a full unit; every
other name is a boundary.  All but the signs compute a civil time, and the result is
the instant that the zone means by it.  What the clocks show is consulted by all of them, and
before anything else.

Main definitions:

- `withDay?`, `withTime?`: a civil time with another day of the month or time of day.
- `Operation.target`: the civil time that an operation leads to.
- `Operation.apply`: the instant that an operation leads to.
-/

namespace Almanac

open Text

/-- The number that a text is: digits, with a plus sign before them or none. -/
def unsigned? (cs : List Char) : Option Nat :=
  let digits := match cs with
    | '+' :: rest => rest
    | cs => cs
  if digits ≠ [] ∧ digits.all Char.isDigit then some (valueOf digits) else none

/-- A civil time with another day of the month, at the same time of day. -/
def withDay? (c : Civil) (day : List Char) : Option Civil := do
  let day ← unsigned? day
  let date ← c.date.withDay? day
  some (date.at c.time)

/-- A civil time with another time of day, on the same date. -/
def withTime? (c : Civil) (time : List Char) : Option Civil :=
  (Literal.clockTime? time).map c.date.at

namespace Operation

/-- The civil time that an operation other than a shift leads to. -/
def target (start : WeekStart) (o : Operation) (c : Civil) : Except EvalError Civil :=
  if o.op = "day" then
    match withDay? c o.value.toList with
    | some moved => .ok moved
    | none => .error (.invalidArgument o.op o.value)
  else if o.op = "time" then
    match withTime? c o.value.toList with
    | some moved => .ok moved
    | none => .error (.invalidArgument o.op o.value)
  else if o.op = "round" then round o.value c
  else if o.op = "trunc" then trunc o.value c
  else boundary start o.op c

/-- The instant that an operation leads to from `i`.  A `day` or a `time` without an
argument leads nowhere. -/
def apply (start : WeekStart) (z : Zone) (i : Instant) (o : Operation) :
    Except EvalError Instant := do
  let shown ← z.consult i
  if o.op = "+" ∨ o.op = "-" then shiftBy z i (o.op.toList ++ o.value.toList)
  else if (o.op = "day" ∨ o.op = "time") ∧ o.value = "" then return i
  else
    let moved ← o.target start shown
    z.localize moved

section

variable {start : WeekStart} {z : Zone} {i : Instant} {o : Operation}

theorem apply_of_inRange (h : (z.civil i).InRange) :
    o.apply start z i =
      if o.op = "+" ∨ o.op = "-" then shiftBy z i (o.op.toList ++ o.value.toList)
      else if (o.op = "day" ∨ o.op = "time") ∧ o.value = "" then .ok i
      else o.target start (z.civil i) >>= z.localize := by
  rw [apply, Zone.consult_of_inRange h]
  rfl

/-- An operation breaks off where the calendar does not cover what the clocks show. -/
theorem apply_of_not_inRange (h : ¬ (z.civil i).InRange) :
    o.apply start z i = .error (.brokenOff i) := by
  rw [apply, Zone.consult_of_not_inRange h]
  rfl

/-- What leads anywhere starts where the calendar covers what the clocks show. -/
theorem inRange_of_apply {r : Instant} (h : o.apply start z i = .ok r) : (z.civil i).InRange := by
  by_cases hrange : (z.civil i).InRange
  · exact hrange
  · rw [apply_of_not_inRange hrange] at h
    cases h

end

/-- The instant that operations lead to, one after the other. -/
def applyAll (start : WeekStart) (z : Zone) (i : Instant) (os : List Operation) :
    Except EvalError Instant :=
  os.foldlM (apply start z) i

end Operation

end Almanac
