import Almanac.Instant

/-!
# Order and elapsed time

Instants are ordered by second and nanosecond, while the span between two of them
counts a leap second only where it lies between the two times of day.  This module
reads both off the same two numbers, and shows how far they agree: a span of a second
or more always goes forward, and away from leap seconds order, span and addition are
those of the nanoseconds since 1970.

Main results:

- Theorem `Instant.lt_of_second_le_since`: a span of at least a second leads to a later
  instant, leap seconds included.
- Theorem `Instant.since_nanos`: away from leap seconds a span is a difference.
- Theorem `Instant.add?_eq_some_iff`: away from leap seconds a later instant is found by
  adding nanoseconds.
- Theorem `Instant.add?_add?`: two spans in a row are one span.
- Theorem `Instant.isSome_add?_of_le`: the calendar covers all that lies before an
  instant it covers.
-/

namespace Almanac

/-! ## Order -/

namespace Civil

theorem lt_iff {a b : Civil} :
    a < b ↔ a.seconds < b.seconds ∨ a.seconds = b.seconds ∧ a.nanos < b.nanos :=
  Iff.rfl

/-- Readings are in the order of their seconds, then in that of their fractions. -/
theorem le_iff {a b : Civil} :
    a ≤ b ↔ a.seconds < b.seconds ∨ a.seconds = b.seconds ∧ a.nanos ≤ b.nanos := by
  have h : a ≤ b ↔ ¬ b < a := Iff.rfl
  rw [h, lt_iff]
  omega

/-- A reading lies within a leap second if its fraction is a second or more. -/
theorem isLeapSecond_eq_true_iff {c : Civil} :
    c.isLeapSecond = true ↔ nanosPerSecond ≤ c.nanos :=
  decide_eq_true_iff

theorem isLeapSecond_eq_false_iff {c : Civil} :
    c.isLeapSecond = false ↔ c.nanos < nanosPerSecond := by
  rw [← Bool.not_eq_true, isLeapSecond_eq_true_iff, Nat.not_le]

/-- A span of at least a second leads to a later civil time. -/
theorem lt_of_second_le_since {a b : Civil} (h : Span.second.nanos ≤ (a.since b).nanos) :
    b < a := by
  have ha := a.nanos_lt
  rw [lt_iff]
  simp only [since, Span.second] at h
  split at h
  -- The extra second is counted only if `b` is itself within a leap second.
  · rename_i hleap
    have hb := isLeapSecond_eq_true_iff.1 hleap.2
    have hday := hleap.1
    simp only [time, nanosPerSecond, secondsPerDay] at hday hb h ha
    omega
  · split at h <;> simp only [nanosPerSecond] at h ha <;> omega

end Civil

namespace Instant

theorem lt_iff {a b : Instant} :
    a < b ↔ a.utc.seconds < b.utc.seconds ∨
      a.utc.seconds = b.utc.seconds ∧ a.utc.nanos < b.utc.nanos :=
  Iff.rfl

/-- Instants are in the order of their readings in UTC. -/
theorem le_iff {a b : Instant} :
    a ≤ b ↔ a.utc.seconds < b.utc.seconds ∨
      a.utc.seconds = b.utc.seconds ∧ a.utc.nanos ≤ b.utc.nanos :=
  Civil.le_iff

/-- The order of instants is a total one. -/
theorem not_le {a b : Instant} : ¬ a ≤ b ↔ b < a := by
  rw [le_iff, lt_iff]
  omega

theorem le_refl (a : Instant) : a ≤ a := by
  rw [le_iff]
  omega

theorem le_of_lt {a b : Instant} (h : a < b) : a ≤ b := by
  rw [lt_iff] at h
  rw [le_iff]
  omega

theorem lt_trans {a b c : Instant} (hab : a < b) (hbc : b < c) : a < c := by
  rw [lt_iff] at *
  omega

/-- An instant is known by its reading in UTC. -/
theorem eq_of_utc_eq {a b : Instant} (h : a.utc = b.utc) : a = b := by
  cases a
  cases b
  simp_all

/-- The earlier of two instants is at or before the second. -/
theorem earlier_le_right (a b : Instant) : a.earlier b ≤ b := by
  unfold earlier
  split <;> rename_i h
  · exact le_refl b
  · rw [← not_le, Decidable.not_not] at h
    exact h

/-- An instant that is not after another is the earlier of the two. -/
theorem earlier_eq_left {a b : Instant} (h : a ≤ b) : a.earlier b = a := by
  rw [earlier, if_neg]
  exact fun hlt => not_le.2 hlt h

/-- An instant that is not before another is the later of the two. -/
theorem earlier_eq_right {a b : Instant} (h : b ≤ a) : a.earlier b = b := by
  unfold earlier
  split <;> rename_i hlt
  · rfl
  · apply eq_of_utc_eq
    rw [lt_iff] at hlt
    rw [le_iff] at h
    obtain ⟨⟨_, _, _⟩, _⟩ := a
    obtain ⟨⟨_, _, _⟩, _⟩ := b
    simp only at h hlt
    simp only [Civil.mk.injEq]
    omega

/-- A span of at least a second leads to a later instant, leap seconds included. -/
theorem lt_of_second_le_since {a b : Instant}
    (h : Span.second.nanos ≤ (a.since b).nanos) : b < a :=
  Civil.lt_of_second_le_since h

end Instant

/-! ## Away from leap seconds -/

namespace Civil

/-- A count of nanoseconds is that of its reading. -/
@[simp]
theorem toNanos_ofNanos (n : Int) : (ofNanos n).toNanos = n := by
  simp only [ofNanos, toNanos, nanosPerSecond]
  omega

/-- No count of nanoseconds is a leap second. -/
@[simp]
theorem isLeapSecond_ofNanos (n : Int) : (ofNanos n).isLeapSecond = false := by
  rw [isLeapSecond_eq_false_iff]
  simp only [ofNanos, nanosPerSecond]
  omega

/-- Away from leap seconds the nanoseconds since 1970 tell civil times apart. -/
theorem ofNanos_toNanos {c : Civil} (h : c.isLeapSecond = false) : ofNanos c.toNanos = c := by
  rw [isLeapSecond_eq_false_iff] at h
  obtain ⟨seconds, nanos, _⟩ := c
  simp only [nanosPerSecond] at h
  simp only [ofNanos, toNanos, nanosPerSecond, Civil.mk.injEq]
  omega

/-- Away from leap seconds a span is added by adding nanoseconds. -/
theorem add_of_isLeapSecond_eq_false {c : Civil} (h : c.isLeapSecond = false) (d : Span) :
    c.add d = ofNanos (c.toNanos + d.nanos) := by
  simp [add, h]

/-- A span of a second or more leaves a leap second, which itself takes no time. -/
theorem add_of_isLeapSecond_eq_true {c : Civil} {d : Span} (h : c.isLeapSecond = true)
    (hd : Span.second.nanos ≤ d.nanos) :
    c.add d = ofNanos (c.toNanos - nanosPerSecond + d.nanos) := by
  have hforward : 0 < d.wholeSeconds := by
    simp only [Span.second, nanosPerSecond] at hd
    rw [Span.wholeSeconds, Int.tdiv_eq_ediv_of_nonneg (by omega), nanosPerSecond]
    omega
  rw [add, if_pos h, dif_pos (.inl hforward)]

/-- A reading within the calendar is the only one that passes the check, and does so unchanged. -/
theorem inRange?_eq_some_iff {c d : Civil} : c.inRange? = some d ↔ d = c ∧ d.InRange := by
  rw [inRange?, Option.ite_none_right_eq_some, Option.some.injEq]
  constructor
  · rintro ⟨h, rfl⟩
    exact ⟨rfl, h⟩
  · rintro ⟨rfl, h⟩
    exact ⟨h, rfl⟩

/-- The calendar covers what lies between two civil times that it covers. -/
theorem inRange_of_le {a b c : Civil} (ha : a.InRange) (hb : b.InRange)
    (hac : a.seconds ≤ c.seconds) (hcb : c.seconds ≤ b.seconds) : c.InRange := by
  simp only [InRange, Date.InRange, date, secondsPerDay] at *
  omega

/-- What lies between two readings of the calendar is on it. -/
theorem inRange_ofNanos {first last : Int} {n : Int} (hfirst : (ofNanos first).InRange)
    (hlast : (ofNanos last).InRange) (hle : first ≤ n) (hge : n ≤ last) :
    (ofNanos n).InRange := by
  apply inRange_of_le hfirst hlast
  · simp only [ofNanos, nanosPerSecond]
    omega
  · simp only [ofNanos, nanosPerSecond]
    omega

end Civil

namespace Instant

/-- The nanoseconds since 1970, with no word on leap seconds. -/
def nanos (i : Instant) : Int :=
  i.utc.toNanos

/-- Whether an instant lies within a leap second. -/
def isLeapSecond (i : Instant) : Bool :=
  i.utc.isLeapSecond

/-- Away from leap seconds an instant is known by its nanoseconds. -/
theorem eq_of_nanos_eq {a b : Instant} (ha : a.isLeapSecond = false)
    (hb : b.isLeapSecond = false) (h : a.nanos = b.nanos) : a = b := by
  apply eq_of_utc_eq
  rw [← Civil.ofNanos_toNanos ha, ← Civil.ofNanos_toNanos hb]
  exact congrArg Civil.ofNanos h

/-- Away from leap seconds the order of instants is that of their nanoseconds. -/
theorem lt_iff_nanos_lt {a b : Instant} (ha : a.isLeapSecond = false)
    (hb : b.isLeapSecond = false) : a < b ↔ a.nanos < b.nanos := by
  have ha := Civil.isLeapSecond_eq_false_iff.1 ha
  have hb := Civil.isLeapSecond_eq_false_iff.1 hb
  rw [lt_iff]
  simp only [nanos, Civil.toNanos, nanosPerSecond] at *
  omega

/-- Away from leap seconds one instant is not after another if its nanoseconds are not. -/
theorem le_iff_nanos_le {a b : Instant} (ha : a.isLeapSecond = false)
    (hb : b.isLeapSecond = false) : a ≤ b ↔ a.nanos ≤ b.nanos := by
  rw [← Decidable.not_iff_not, not_le, lt_iff_nanos_lt hb ha, Int.not_le]

/-- Away from leap seconds a span is a difference of nanoseconds. -/
theorem since_nanos {a b : Instant} (ha : a.isLeapSecond = false)
    (hb : b.isLeapSecond = false) : (a.since b).nanos = a.nanos - b.nanos := by
  unfold isLeapSecond at ha hb
  simp only [since, Civil.since, ha, hb, nanos, Civil.toNanos, nanosPerSecond,
    Bool.false_eq_true, and_false, if_false]
  omega

/-- The earlier of two instants lies within no leap second, if neither does. -/
theorem isLeapSecond_earlier {a b : Instant} (ha : a.isLeapSecond = false)
    (hb : b.isLeapSecond = false) : (a.earlier b).isLeapSecond = false := by
  unfold earlier
  split
  · exact hb
  · exact ha

/-- The nanoseconds of the earlier of two instants. -/
theorem nanos_earlier {a b : Instant} (ha : a.isLeapSecond = false)
    (hb : b.isLeapSecond = false) : (a.earlier b).nanos = min a.nanos b.nanos := by
  unfold earlier
  split <;> rename_i h
  · have := (lt_iff_nanos_lt hb ha).1 h
    omega
  · have := (le_iff_nanos_le ha hb).1 h
    omega

/-- Away from leap seconds the instant a span later is the one with so many nanoseconds
more. -/
theorem add?_eq_some_iff {i j : Instant} {d : Span} (hi : i.isLeapSecond = false) :
    i.add? d = some j ↔ j.isLeapSecond = false ∧ j.nanos = i.nanos + d.nanos := by
  rw [add?, ofUtc?_eq_some_iff, Civil.add_of_isLeapSecond_eq_false hi]
  constructor
  · intro h
    exact ⟨by rw [isLeapSecond, h, Civil.isLeapSecond_ofNanos],
      by rw [nanos, h, Civil.toNanos_ofNanos]; rfl⟩
  · rintro ⟨hj, hnanos⟩
    rw [← Civil.ofNanos_toNanos hj]
    exact congrArg Civil.ofNanos hnanos

/-- Two spans in a row are one span. -/
theorem add?_add? {i j : Instant} {d : Span} (hi : i.isLeapSecond = false)
    (h : i.add? d = some j) (e : Span) : j.add? e = i.add? ⟨d.nanos + e.nanos⟩ := by
  obtain ⟨hj, hnanos⟩ := (add?_eq_some_iff hi).1 h
  apply Option.ext
  intro k
  rw [add?_eq_some_iff hi, add?_eq_some_iff hj, hnanos, Int.add_assoc]

/-- The calendar covers all that lies between an instant and a later one. -/
theorem isSome_add?_of_le {i : Instant} {d e : Span} (hi : i.isLeapSecond = false)
    (hd : 0 ≤ d.nanos) (hle : d.nanos ≤ e.nanos) (he : (i.add? e).isSome) :
    (i.add? d).isSome := by
  obtain ⟨last, hlast⟩ := Option.isSome_iff_exists.1 he
  rw [add?, ofUtc?_eq_some_iff, Civil.add_of_isLeapSecond_eq_false hi] at hlast
  have hfirst : (Civil.ofNanos i.nanos).InRange := by
    rw [nanos, Civil.ofNanos_toNanos hi]
    exact i.inRange
  have hcovered : (Civil.ofNanos (i.nanos + d.nanos)).InRange := by
    apply Civil.inRange_ofNanos hfirst (hlast ▸ last.inRange)
    · omega
    · rw [nanos]
      omega
  rw [add?, Civil.add_of_isLeapSecond_eq_false hi, ofUtc?]
  simp only [nanos] at hcovered
  rw [dif_pos hcovered]
  rfl

/-! ## Whole seconds -/

/-- The instant a number of whole seconds after 1 January 1970, 00:00 UTC. -/
def ofSeconds (n : Int)
    (h : Civil.InRange ⟨n, 0, TimeOfDay.midnight.nanos_lt⟩ := by decide) : Instant :=
  ⟨⟨n, 0, TimeOfDay.midnight.nanos_lt⟩, h⟩

/-- The first instant of 1970 in UTC. -/
def epoch : Instant :=
  ofSeconds 0

end Instant

end Almanac
