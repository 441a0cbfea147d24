import Almanac.Calendar.TimeOfDay
import Almanac.Text.Blank

/-!
# Times of day as they are written

A time of day is written as hours and minutes, or hours, minutes and seconds, with
colons between them.  Each number has one or two digits, and blanks may stand before
it.

Main definitions:

- `digitField`, `numericField`: a number of limited width at the start of a text.
- `skipChar`: one given character at the start of a text.
- `clockTime?`: the time of day that a text is.
-/

namespace Almanac.Literal

open Text

/-- A number of at most `width` digits at the start of a text, and the text after it. -/
def digitField (width : Nat) (cs : List Char) : Option (Nat × List Char) :=
  let digits := (cs.take width).takeWhile Char.isDigit
  if digits = [] then none else some (valueOf digits, cs.drop digits.length)

/-- A number of at most `width` digits after any blanks, and the text after it. -/
def numericField (width : Nat) (cs : List Char) : Option (Nat × List Char) :=
  digitField width (trimStart cs)

/-- The text after the character `c`, if it starts with that. -/
def skipChar (c : Char) : List Char → Option (List Char)
  | [] => none
  | d :: cs => if d = c then some cs else none

/-- The time of day that a text is, second 60 included. -/
def clockTime? (cs : List Char) : Option TimeOfDay := do
  let (hour, cs) ← numericField 2 cs
  let cs ← skipChar ':' cs
  let (minute, cs) ← numericField 2 cs
  if cs = [] then TimeOfDay.ofHMS? hour minute 0
  else
    let cs ← skipChar ':' cs
    let (second, cs) ← numericField 2 cs
    if cs = [] then TimeOfDay.ofHMS? hour minute second else none

end Almanac.Literal
