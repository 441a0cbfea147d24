import Almanac.Calendar.Date
import Almanac.Calendar.Span

/-!
# Civil times

A civil time is what a calendar and a clock on the wall show together: a date and a
time of day, with no word on where the wall is.  It is kept as a number of seconds
since 1 January 1970, 00:00, and nanoseconds, which from a thousand million on lie
within a leap second.

Main definitions:

- `Civil.date`, `Civil.time`, `Date.at`: a civil time and its two parts.
- `Civil.add`: the civil time a span later, which leaves a leap second where it must.
- `Civil.since`: the span between two civil times.
- `Civil.InRange`: the civil times on the dates that the calendar covers.
- `Civil.addMonths?`: the same day and time in another month.
-/

namespace Almanac

open Text

/-- A date and a time of day. -/
@[ext]
structure Civil where
  /-- The number of whole seconds since 1 January 1970, 00:00. -/
  seconds : Int
  /-- Nanoseconds since the second began; from a thousand million on, within a leap second. -/
  nanos : Nat
  nanos_lt : nanos < 2 * nanosPerSecond := by decide
deriving Repr

instance : DecidableEq Civil := fun a b =>
  decidable_of_iff (a.seconds = b.seconds ∧ a.nanos = b.nanos) Civil.ext_iff.symm

/-- The civil time on a date at a time of day. -/
def Date.at (d : Date) (t : TimeOfDay) : Civil where
  seconds := d.dayNumber * secondsPerDay + t.seconds
  nanos := t.nanos
  nanos_lt := t.nanos_lt

namespace Civil

/-! ## Parts -/

/-- The date of a civil time. -/
def date (c : Civil) : Date :=
  ⟨c.seconds / secondsPerDay⟩

/-- The time of day of a civil time. -/
def time (c : Civil) : TimeOfDay where
  seconds := (c.seconds % secondsPerDay).toNat
  nanos := c.nanos
  seconds_lt := by simp only [secondsPerDay]; omega
  nanos_lt := c.nanos_lt

/-- Whether a civil time lies within a leap second. -/
def isLeapSecond (c : Civil) : Bool :=
  nanosPerSecond ≤ c.nanos

/-- The civil times on the dates that the calendar covers. -/
def InRange (c : Civil) : Prop :=
  c.date.InRange

instance (c : Civil) : Decidable c.InRange :=
  inferInstanceAs (Decidable (Date.InRange _))

/-- A civil time, unless its date is outside the calendar. -/
def inRange? (c : Civil) : Option Civil :=
  if c.InRange then some c else none

/-! ## Order -/

/-- A civil time is before another if its second is, or in the same second its nanosecond. -/
protected def lt (a b : Civil) : Prop :=
  a.seconds < b.seconds ∨ a.seconds = b.seconds ∧ a.nanos < b.nanos

instance : LT Civil := ⟨Civil.lt⟩

instance (a b : Civil) : Decidable (a < b) :=
  inferInstanceAs (Decidable (_ ∨ _))

/-- A civil time is at or before another if the other is not before it. -/
protected def le (a b : Civil) : Prop :=
  ¬ b < a

instance : LE Civil := ⟨Civil.le⟩

instance (a b : Civil) : Decidable (a ≤ b) :=
  inferInstanceAs (Decidable (¬ _))

/-! ## Arithmetic -/

/-- The civil time that shows `total` nanoseconds since 1 January 1970, 00:00. -/
def ofNanos (total : Int) : Civil where
  seconds := total / nanosPerSecond
  nanos := (total % nanosPerSecond).toNat
  nanos_lt := by simp only [nanosPerSecond]; omega

/-- Nanoseconds since 1 January 1970, 00:00, a leap second counted in full. -/
def toNanos (c : Civil) : Int :=
  c.seconds * nanosPerSecond + c.nanos

/-- The civil time a span later.

A span that stays within a leap second moves inside it.  One that leaves it forward
starts from the same fraction of the second before, one that leaves it backward from
the same fraction of the second after, so that the leap second takes no time. -/
def add (c : Civil) (d : Span) : Civil :=
  if c.isLeapSecond then
    if h : 0 < d.wholeSeconds ∨ 0 < d.rest ∧ 2 * nanosPerSecond ≤ c.nanos + d.rest then
      ofNanos (c.toNanos - nanosPerSecond + d.nanos)
    else if d.wholeSeconds < 0 then
      ofNanos (c.toNanos + d.nanos)
    else
      { seconds := c.seconds
        nanos := (c.nanos + d.rest).toNat
        nanos_lt := by have := c.nanos_lt; simp only [nanosPerSecond] at *; omega }
  else ofNanos (c.toNanos + d.nanos)

/-- The civil time a span later, if the calendar covers it. -/
def add? (c : Civil) (d : Span) : Option Civil :=
  (c.add d).inRange?

/-- The span from `b` to `a`.

A leap second takes its second of time where it lies between the two times of day:
where the one that is later in the day lies past it. -/
def since (a b : Civil) : Span :=
  let leap : Int :=
    if b.time.seconds < a.time.seconds ∧ b.isLeapSecond then 1
    else if a.time.seconds < b.time.seconds ∧ a.isLeapSecond then -1
    else 0
  ⟨(a.seconds - b.seconds + leap) * nanosPerSecond + (a.nanos - b.nanos)⟩

/-- The largest number of months by which a date can be moved at once. -/
def maxMonths : Nat := 2147483647

/-- The civil time `months` later, at the same time of day.  The day of the month is
kept, or brought down to the last day of the new month. -/
def addMonths? (c : Civil) (months : Int) : Option Civil :=
  if maxMonths < months.natAbs then none
  else
    let total := c.date.year * 12 + (c.date.month - 1 : Nat) + months
    let year := total / 12
    let month := (total % 12).toNat + 1
    (Date.ofYMD? year month (min c.date.day (daysInMonth year month))).map (·.at c.time)

/-! ## Text -/

/-- Date and time with a separator between them. -/
def textWith (separator : Char) (c : Civil) : List Char :=
  c.date.text ++ separator :: c.time.text

/-- Date and time with a space between them. -/
def text (c : Civil) : List Char :=
  c.textWith ' '

end Civil

end Almanac
