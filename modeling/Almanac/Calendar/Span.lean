import Almanac.Calendar.TimeOfDay

/-!
# Spans of time

A span is an elapsed time, positive or negative, in nanoseconds.  A span that comes
from a count of seconds is limited to 2^63 - 1 milliseconds either way.

Main definitions:

- `Span.ofSeconds?`, `Span.ofDays?`: the span of so many seconds or days.
- `Span.wholeSeconds`, `Span.rest`: whole seconds toward zero, and what is left.
- `Span.text`: the span in the notation `PT90S`.
-/

namespace Almanac

open Text

/-- An elapsed time. -/
structure Span where
  /-- The number of nanoseconds. -/
  nanos : Int
deriving DecidableEq, Repr

/-- The largest count that fits in 64 bits with a sign. -/
def maxCount : Int := 9223372036854775807

/-- The smallest count that fits in 64 bits with a sign. -/
def minCount : Int := -9223372036854775808

/-- A count, unless it does not fit in 64 bits with a sign. -/
def count? (n : Int) : Option Int :=
  if minCount ≤ n ∧ n ≤ maxCount then some n else none

namespace Span

/-- The longest span of whole seconds within the limit. -/
def maxSeconds : Int := maxCount / 1000

/-- The span of `n` seconds, if it is within the limit. -/
def ofSeconds? (n : Int) : Option Span :=
  if -maxSeconds ≤ n ∧ n ≤ maxSeconds then some ⟨n * nanosPerSecond⟩ else none

/-- The span of `n` days of 24 hours, if it is within the limit. -/
def ofDays? (n : Int) : Option Span :=
  (count? (n * secondsPerDay)).bind ofSeconds?

/-- One hour. -/
def hour : Span := ⟨3600 * nanosPerSecond⟩

/-- One second. -/
def second : Span := ⟨nanosPerSecond⟩

/-- The whole seconds of a span, toward zero. -/
def wholeSeconds (d : Span) : Int :=
  d.nanos.tdiv nanosPerSecond

/-- The nanoseconds of a span beyond its whole seconds, with the sign of the span. -/
def rest (d : Span) : Int :=
  d.nanos.tmod nanosPerSecond

/-- The digits of a fraction of a second, without the zeros at the end. -/
def fractionDigits (nanos : Nat) : List Char :=
  ((padded 9 nanos).reverse.dropWhile (· == '0')).reverse

/-- A span in seconds: `PT90S`, `-PT0.5S`, and `P0D` for none. -/
def text (d : Span) : List Char :=
  let sign := if d.nanos < 0 then ['-'] else []
  let seconds := d.nanos.natAbs / nanosPerSecond
  let nanos := d.nanos.natAbs % nanosPerSecond
  if d.nanos = 0 then ['P', '0', 'D']
  else
    let fraction := if nanos = 0 then [] else '.' :: fractionDigits nanos
    sign ++ ['P', 'T'] ++ plain seconds ++ fraction ++ ['S']

end Span

end Almanac
