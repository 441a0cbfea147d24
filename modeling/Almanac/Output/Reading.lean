import Almanac.Zone.Basic

/-!
# Readings

A reading is what calendar and clock of a zone show at an instant, together with the
regime that they follow.  It is all that the written form of an instant depends on.

Main definitions:

- `Reading`, `Zone.reading`: a reading, and the reading of an instant.
- `OffsetStyle`, `OffsetStyle.write`: the ways to write an offset from UTC.
- `rfc3339`: a reading in the notation of RFC 3339.
-/

namespace Almanac

open Text

/-- What calendar and clock of a zone show at an instant. -/
structure Reading where
  civil : Civil
  /-- The regime in force at the instant. -/
  regime : Regime
deriving DecidableEq, Repr

/-- The reading of an instant in a zone. -/
def Zone.reading (z : Zone) (i : Instant) : Reading where
  civil := z.civil i
  regime := z.regimeAt i.unix

namespace Reading

/-- The date that is read. -/
def date (r : Reading) : Date :=
  r.civil.date

/-- The time of day that is read. -/
def time (r : Reading) : TimeOfDay :=
  r.civil.time

/-- The whole seconds since 1 January 1970, 00:00 UTC. -/
def unix (r : Reading) : Int :=
  r.civil.seconds - r.regime.offset

end Reading

@[simp] theorem Zone.unix_reading (z : Zone) (i : Instant) : (z.reading i).unix = i.unix := by
  simp only [Reading.unix, Zone.reading, Zone.civil, Zone.offsetAt, Instant.unix]
  omega

/-! ## Offsets -/

/-- The ways to write an offset from UTC: to the minute, to the second or to the hour. -/
inductive OffsetStyle where
  /-- Hours and minutes, rounded to the minute. -/
  | compact
  /-- Hours and minutes with a colon, rounded to the minute. -/
  | minutes
  /-- Hours, minutes and seconds with colons. -/
  | seconds
  /-- Hours alone, the rest cut. -/
  | hours
deriving DecidableEq, Repr

/-- An offset in one of the styles. -/
def OffsetStyle.write (style : OffsetStyle) (offset : Int) : List Char :=
  let sign := if offset < 0 then '-' else '+'
  let n := offset.natAbs
  let rounded := (n + 30) / 60
  match style with
  | compact => sign :: padded 2 (rounded / 60) ++ padded 2 (rounded % 60)
  | minutes => sign :: padded 2 (rounded / 60) ++ ':' :: padded 2 (rounded % 60)
  | seconds =>
    sign :: padded 2 (n / 3600) ++ ':' :: padded 2 (n / 60 % 60) ++ ':' :: padded 2 (n % 60)
  | hours => sign :: padded 2 (n / 3600)

/-! ## RFC 3339 -/

/-- Date and time of day with a `T` between them, with the fraction of the second or
without. -/
def dateTimeText (fraction : Bool) (r : Reading) : List Char :=
  let clock := if fraction then r.time.text else r.time.clockText
  r.date.text ++ 'T' :: clock

/-- A reading in the notation of RFC 3339, with the fraction of the second or without.
No offset is written as `Z`. -/
def rfc3339 (fraction : Bool) (r : Reading) : List Char :=
  let offset := if r.regime.offset = 0 then ['Z'] else OffsetStyle.minutes.write r.regime.offset
  dateTimeText fraction r ++ offset

end Almanac
