import Almanac.Text.Decimal

/-!
# Times of day

A time of day is a second of the day together with nanoseconds.  A count of one
thousand million nanoseconds or more marks a leap second: it stands for the moments
after the second's end, shown as second 60.

Main definitions:

- `TimeOfDay.hour`, `TimeOfDay.minute`, `TimeOfDay.second`: the parts of a time.
- `TimeOfDay.ofHMS?`: the time with the given parts, second 60 included.
- `TimeOfDay.text`: hours, minutes, seconds and as much of the fraction as is needed.
-/

namespace Almanac

open Text

/-- The number of nanoseconds in a second. -/
abbrev nanosPerSecond : Nat := 1000000000

/-- The number of seconds in a day. -/
abbrev secondsPerDay : Nat := 86400

/-- A moment within a day. -/
structure TimeOfDay where
  /-- The number of whole seconds since midnight. -/
  seconds : Nat
  /-- Nanoseconds since the second began; from a thousand million on, within a leap second. -/
  nanos : Nat
  seconds_lt : seconds < secondsPerDay := by decide
  nanos_lt : nanos < 2 * nanosPerSecond := by decide
deriving DecidableEq, Repr

namespace TimeOfDay

/-- The first moment of a day. -/
def midnight : TimeOfDay where
  seconds := 0
  nanos := 0

/-- The last nanosecond of a day. -/
def endOfDay : TimeOfDay where
  seconds := 86399
  nanos := 999999999

/-- The hour, 0 to 23. -/
def hour (t : TimeOfDay) : Nat :=
  t.seconds / 3600

/-- The hour on a clock with twelve of them, which begins with 12. -/
def hour12 (t : TimeOfDay) : Nat :=
  if t.hour % 12 = 0 then 12 else t.hour % 12

/-- The minute of the hour. -/
def minute (t : TimeOfDay) : Nat :=
  t.seconds / 60 % 60

/-- The second of the minute, 0 to 59 even within a leap second. -/
def second (t : TimeOfDay) : Nat :=
  t.seconds % 60

/-- The second of the minute as it is written: a leap second is second 60. -/
def shownSecond (t : TimeOfDay) : Nat :=
  t.second + t.nanos / nanosPerSecond

/-- The nanoseconds past the second that is written. -/
def shownNanos (t : TimeOfDay) : Nat :=
  t.nanos % nanosPerSecond

/-- The time with the given hour, minute, second and nanoseconds past it, none of them
a leap second. -/
def ofParts? (hour minute second nanos : Nat) : Option TimeOfDay :=
  if h : hour < 24 ∧ minute < 60 ∧ second < 60 ∧ nanos < nanosPerSecond then
    some
      { seconds := hour * 3600 + minute * 60 + second
        nanos := nanos
        seconds_lt := by simp only [secondsPerDay]; omega
        nanos_lt := by omega }
  else none

/-- The time with the given hour, minute and second; second 60 is the leap second that
follows second 59. -/
def ofHMS? (hour minute second : Nat) : Option TimeOfDay :=
  if second = 60 then
    if h : hour < 24 ∧ minute < 60 then
      some
        { seconds := hour * 3600 + minute * 60 + 59
          nanos := nanosPerSecond
          seconds_lt := by simp only [secondsPerDay]; omega
          nanos_lt := by decide }
    else none
  else ofParts? hour minute second 0

/-- The fraction of a second in the fewest of 0, 3, 6 and 9 digits that lose nothing. -/
def fractionText (nanos : Nat) : List Char :=
  if nanos = 0 then []
  else if nanos % 1000000 = 0 then '.' :: padded 3 (nanos / 1000000)
  else if nanos % 1000 = 0 then '.' :: padded 6 (nanos / 1000)
  else '.' :: padded 9 nanos

/-- Hours, minutes and seconds. -/
def clockText (t : TimeOfDay) : List Char :=
  padded 2 t.hour ++ ':' :: padded 2 t.minute ++ ':' :: padded 2 t.shownSecond

/-- Hours, minutes, seconds and the fraction. -/
def text (t : TimeOfDay) : List Char :=
  t.clockText ++ fractionText t.shownNanos

end TimeOfDay

end Almanac
