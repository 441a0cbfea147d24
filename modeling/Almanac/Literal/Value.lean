import Almanac.Eval.Context
import Almanac.Literal.Iso
import Almanac.Operation.Shift

/-!
# The value of a date

A date is written as a word (`now`, `today`, the name of a weekday), as a quantity
that is counted from now, as an ISO date or as a time of day, which is then today's.
Words may be in capitals or small letters.  Which day is today is consulted first, whatever the
text is.

Main definitions:

- `Weekday.ofName?`: the weekday of an English name.
- `nextOn`: the next date on a weekday.
- `isQuantity`: whether a text is counted from now.
- `midnightOf`, `isoValue`, `numeralValue`: the instants of the single kinds of texts.
- `valueOn`: the instant that a text means if it is known which day is today.
- `dateValue`: the instant that a text means in a context.
-/

namespace Almanac

open Text

/-- The weekday with an English name in small letters. -/
def Weekday.ofName? (name : String) : Option Weekday :=
  Weekday.all.find? fun w => String.ofList (w.name.toList.map Char.toLower) == name

/-- The number of days from the weekday `current` to the next `target`, at least one. -/
def Weekday.daysUntil (current target : Weekday) : Nat :=
  (target.sinceMonday + 6 - current.sinceMonday) % 7 + 1

/-- The next date after `d` that falls on `target`. -/
def nextOn (target : Weekday) (d : Date) : Date :=
  d.addDays (d.weekday.daysUntil target : Nat)

/-- The number of days from today to a day that has a name of its own. -/
def namedDay? (name : String) : Option Int :=
  [("today", 0), ("yesterday", -1), ("tomorrow", 1)].lookup name

/-- Whether a text is a run of digits and one letter. -/
def isUnsignedQuantity (cs : List Char) : Bool :=
  let rest := cs.dropWhile Char.isDigit
  cs.head?.any Char.isDigit && rest.length == 1 && rest.all Char.isAlpha

/-- Whether a text is counted from now: whether it starts with a sign, or is a run of
digits and one letter. -/
def isQuantity (cs : List Char) : Bool :=
  cs.head? == some '+' || cs.head? == some '-' || isUnsignedQuantity cs

/-- The midnight that a date begins with, named `text` if the calendar does not cover it. -/
def midnightOf (ctx : Context) (text : String) (d : Date) : Except EvalError Instant := do
  let date ← orOutOfRange text.toList d.inRange?
  ctx.zone.localize (date.at .midnight)

/-- The instant of an ISO date: shown by the clocks of the offset that is written, or if
there is none by those of the zone. -/
def isoValue (ctx : Context) (text : String) (c : Civil) (offset : Option Int) :
    Except EvalError Instant :=
  match offset with
  | none => ctx.zone.localize c
  | some offset =>
    match Instant.ofUtc? { c with seconds := c.seconds - offset } with
    | some i => .ok i
    | none => .error (.invalidDateValue text)

/-- The instant of a date in digits. -/
def numeralValue (ctx : Context) (today : Date) (text : String) : Except EvalError Instant :=
  let cs := text.toList
  match Literal.iso? cs with
  | some (c, offset) => isoValue ctx text c offset
  | none =>
    match Literal.clockTime? cs with
    | some time => ctx.zone.localize (today.at time)
    | none => .error (.invalidDateValue text)

/-- The instant that a text means, on a given day. -/
def valueOn (ctx : Context) (today : Date) (text : String) : Except EvalError Instant :=
  let name := String.ofList (text.toList.map Char.toLower)
  if name = "now" then .ok ctx.now
  else
    match namedDay? name with
    | some days => midnightOf ctx text (today.addDays days)
    | none =>
      match Weekday.ofName? name with
      | some w => midnightOf ctx w.shortName (nextOn w today)
      | none =>
        if isQuantity text.toList then shiftBy ctx.zone ctx.now text.toList
        else numeralValue ctx today text

/-- The instant that a text means. -/
def dateValue (ctx : Context) (text : String) : Except EvalError Instant := do
  let shown ← ctx.zone.consult ctx.now
  valueOn ctx shown.date text

/-- Where it can be said which day is today, a text means what it does on that day. -/
theorem dateValue_of_hasToday {ctx : Context} (h : ctx.HasToday) (text : String) :
    dateValue ctx text = valueOn ctx ctx.today text := by
  rw [dateValue, Zone.consult_of_inRange h]
  rfl

/-- Where it cannot be said which day is today, no text has a value. -/
theorem dateValue_of_not_hasToday {ctx : Context} (h : ¬ ctx.HasToday) (text : String) :
    dateValue ctx text = .error (.brokenOff ctx.now) := by
  rw [dateValue, Zone.consult_of_not_inRange h]
  rfl

end Almanac
