import Almanac.Calendar.Civil

/-!
# Instants

An instant is a point of time, known by the civil time that it has in UTC.  Every
instant lies on a date that the calendar covers.

Main definitions:

- `Instant.ofUtc?`: the instant that has a civil time in UTC.
- `Instant.unix`: the whole seconds since 1970, a leap second not counted.
- `Instant.add?`, `Instant.since`: elapsed time.
-/

namespace Almanac

/-- A point of time. -/
structure Instant where
  /-- The civil time in UTC. -/
  utc : Civil
  inRange : utc.InRange
deriving DecidableEq, Repr

namespace Instant

/-- The instant that has the civil time `c` in UTC, if the calendar covers its date. -/
def ofUtc? (c : Civil) : Option Instant :=
  if h : c.InRange then some ⟨c, h⟩ else none

/-- The whole seconds since 1 January 1970, 00:00 UTC. -/
def unix (i : Instant) : Int :=
  i.utc.seconds

/-- Instants are ordered as their civil times in UTC are. -/
instance : LT Instant := ⟨fun a b => a.utc < b.utc⟩

instance (a b : Instant) : Decidable (a < b) :=
  inferInstanceAs (Decidable (a.utc < b.utc))

/-- Instants are ordered as their civil times in UTC are. -/
instance : LE Instant := ⟨fun a b => a.utc ≤ b.utc⟩

instance (a b : Instant) : Decidable (a ≤ b) :=
  inferInstanceAs (Decidable (a.utc ≤ b.utc))

/-- The earlier of two instants. -/
def earlier (a b : Instant) : Instant :=
  if b < a then b else a

/-- The instant a span later, if the calendar covers it. -/
def add? (i : Instant) (d : Span) : Option Instant :=
  ofUtc? (i.utc.add d)

/-- The span from `b` to `a`. -/
def since (a b : Instant) : Span :=
  a.utc.since b.utc

@[simp] theorem ofUtc?_utc (i : Instant) : ofUtc? i.utc = some i := by
  simp [ofUtc?, i.inRange]

theorem ofUtc?_eq_some_iff {c : Civil} {i : Instant} : ofUtc? c = some i ↔ i.utc = c := by
  constructor
  · intro h
    unfold ofUtc? at h
    split at h
    · cases h; rfl
    · cases h
  · rintro rfl
    exact ofUtc?_utc i

end Instant

end Almanac
