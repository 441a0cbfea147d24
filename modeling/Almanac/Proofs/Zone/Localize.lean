import Almanac.Eval.Error
import Almanac.Proofs.Instant.Elapsed

/-!
# From civil times back to instants

In a zone that changes its clocks several instants can have one civil time, and some civil
times are had by none.  What a zone means by a civil time is the first instant that has it;
for a civil time that was skipped it is the first that shows one hour later.  This is what
holds of every zone, whatever its transitions are.

Main definitions:

- `Zone.skipped`, `Zone.slip`: by how much clock changes move what is found, as seen from an
  instant.
- `Zone.Keeps`: nothing is moved.

Main results:

- Theorem `Zone.earliest?_eq_some_iff`: what is found is the first instant of all.
- Theorem `Zone.exists_earliest?`: one is found if there is any and the calendar covers
  the days around it.
- Theorems `Zone.civil_of_localize?_cases`, `Zone.seconds_civil_of_localize?`: the clock at what
  is found.
- Theorem `Zone.unix_of_localize?`: where what is found lies, as seen from an instant.
- Theorem `Zone.localize?_bounds`: what is found is not much more than a day away.
-/

namespace Almanac

namespace Civil

/-- One hour after a civil time, in nanoseconds since 1970. -/
theorem add_hour (c : Civil) :
    c.add Span.hour =
      ofNanos (c.toNanos - (if c.isLeapSecond then nanosPerSecond else 0) + Span.hour.nanos) := by
  cases hleap : c.isLeapSecond with
  | false => simp [add_of_isLeapSecond_eq_false hleap]
  | true => exact add_of_isLeapSecond_eq_true hleap (by decide)

/-- One hour after a civil time, be it within a leap second or not, is that many seconds
later. -/
theorem seconds_add_hour (c : Civil) : (c.add Span.hour).seconds = c.seconds + 3600 := by
  have hnanos := c.nanos_lt
  rw [add_hour, isLeapSecond]
  simp only [ofNanos, toNanos, Span.hour, nanosPerSecond, decide_eq_true_eq] at hnanos ⊢
  split <;> omega

/-- One hour later a second has begun as long ago. -/
theorem nanos_add_hour (c : Civil) : (c.add Span.hour).nanos = c.nanos % nanosPerSecond := by
  have hnanos := c.nanos_lt
  rw [add_hour, isLeapSecond]
  simp only [ofNanos, toNanos, Span.hour, nanosPerSecond, decide_eq_true_eq] at hnanos ⊢
  split <;> omega

end Civil

namespace Zone

variable {z : Zone} {c : Civil} {i j r : Instant}

/-- Clocks are less than a day ahead of UTC or behind it. -/
theorem offsetAt_bounds (z : Zone) (unix : Int) :
    -86400 < z.offsetAt unix ∧ z.offsetAt unix < 86400 :=
  (z.regimeAt unix).offset_bound

/-- The clock is ahead of UTC by the offset at that instant. -/
theorem seconds_civil_eq (z : Zone) (i : Instant) :
    (z.civil i).seconds = i.unix + z.offsetAt i.unix :=
  rfl

/-- The civil time has the nanoseconds of the instant in every zone. -/
@[simp]
theorem nanos_civil (z : Zone) (i : Instant) : (z.civil i).nanos = i.utc.nanos :=
  rfl

/-! ## The first instant -/

/-- What is found is an instant with the civil time, and no earlier second shows it. -/
theorem earliest?_eq_some_iff :
    z.earliest? c = some i ↔
      z.civil i = c ∧ ∀ unix, unix + z.offsetAt unix = c.seconds → i.unix ≤ unix := by
  have hmin (unix : Int) : (z.preimages c.seconds).min? = some unix ↔
      unix + z.offsetAt unix = c.seconds ∧
        ∀ other, other + z.offsetAt other = c.seconds → unix ≤ other := by
    rw [List.min?_eq_some_iff]
    simp only [mem_preimages_iff]
  rw [earliest?, Option.bind_eq_some_iff]
  constructor
  · rintro ⟨unix, hunix, hi⟩
    obtain ⟨hshown, hfirst⟩ := (hmin unix).1 hunix
    have hutc := Instant.ofUtc?_eq_some_iff.1 hi
    have hseconds : i.unix = unix := congrArg Civil.seconds hutc
    refine ⟨Civil.ext ?_ ?_, ?_⟩
    · rw [seconds_civil_eq, hseconds, hshown]
    · rw [nanos_civil, hutc]
    · rw [hseconds]
      exact hfirst
  · rintro ⟨rfl, hfirst⟩
    exact ⟨i.unix, (hmin i.unix).2 ⟨rfl, hfirst⟩, Instant.ofUtc?_eq_some_iff.2 rfl⟩

/-- No instant with the civil time is earlier than the one that is found. -/
theorem le_of_earliest? (h : z.earliest? c = some i) (hj : z.civil j = c) : i ≤ j := by
  obtain ⟨hi, hfirst⟩ := earliest?_eq_some_iff.1 h
  have hunix := hfirst j.unix (congrArg Civil.seconds hj)
  have hnanos : i.utc.nanos = j.utc.nanos := by rw [← nanos_civil z, hi, ← hj, nanos_civil]
  rw [Instant.le_iff]
  simp only [Instant.unix] at hunix
  omega

/-- An instant with a civil time is found if there is one, and the calendar covers all that
is less than a day away from the civil time. -/
theorem exists_earliest? {unix : Int} (hunix : unix + z.offsetAt unix = c.seconds)
    (hrange : ∀ s, c.seconds - 86400 < s → s < c.seconds + 86400 →
      Civil.InRange { c with seconds := s }) :
    ∃ i, z.earliest? c = some i := by
  have hmem : unix ∈ z.preimages c.seconds := mem_preimages_iff.2 hunix
  cases hmin : (z.preimages c.seconds).min? with
  | none =>
      rw [List.min?_eq_none_iff.1 hmin] at hmem
      cases hmem
  | some first =>
      have hfirst := mem_preimages_iff.1 (List.min?_eq_some_iff.1 hmin).1
      have hoffset := z.offsetAt_bounds first
      have hcovered := hrange first (by omega) (by omega)
      exact ⟨⟨_, hcovered⟩, by simp [earliest?, hmin, Instant.ofUtc?, hcovered]⟩

/-! ## What a zone means -/

/-- The instant that is meant is the first with the civil time, or if there is none, the
first with the civil time one hour later. -/
theorem localize?_eq_some_iff :
    z.localize? c = some r ↔
      z.earliest? c = some r ∨ z.earliest? c = none ∧ z.earliest? (c.add Span.hour) = some r ∧
        (c.add Span.hour).InRange := by
  unfold localize?
  cases z.earliest? c with
  | some i => simp
  | none =>
      simp only [reduceCtorEq, false_or, true_and, Civil.add?, Civil.inRange?]
      split <;> rename_i hrange <;> simp [hrange]

/-- What is found for a civil time that an instant has. -/
theorem localize?_of_earliest? (h : z.earliest? c = some r) : z.localize? c = some r :=
  localize?_eq_some_iff.2 (.inl h)

/-- At the instant that is meant by a civil time the clock shows it, or if it is skipped one
hour later, which is the first instant to show that. -/
theorem civil_of_localize?_cases (h : z.localize? c = some r) :
    z.civil r = c ∨
      z.civil r = c.add Span.hour ∧ z.localize? (c.add Span.hour) = some r := by
  rcases localize?_eq_some_iff.1 h with hfound | ⟨-, hlater, -⟩
  · exact .inl (earliest?_eq_some_iff.1 hfound).1
  · exact .inr ⟨(earliest?_eq_some_iff.1 hlater).1, localize?_of_earliest? hlater⟩

/-- Clocks show nothing that the calendar does not cover, but on its first and on its last day in
UTC. -/
theorem at_end_of_not_inRange {i : Instant} (h : ¬ (z.civil i).InRange) :
    i.utc.date.dayNumber = Date.minDay ∨ i.utc.date.dayNumber = Date.maxDay := by
  have hbound := z.offsetAt_bounds i.unix
  have hrange := i.inRange
  simp only [civil, Instant.unix, Civil.InRange, Date.InRange, Civil.date, secondsPerDay] at *
  omega

/-- At the instant that is meant by a civil time of the calendar, the clock shows one too. -/
theorem inRange_civil_of_localize? (hc : c.InRange) (h : z.localize? c = some r) :
    (z.civil r).InRange := by
  rcases localize?_eq_some_iff.1 h with hfound | ⟨-, hlater, hrange⟩
  · rwa [(earliest?_eq_some_iff.1 hfound).1]
  · rwa [(earliest?_eq_some_iff.1 hlater).1]

/-- What begins with a civil time that is consulted begins with what the clocks show. -/
theorem consult_bind_eq_ok_iff {α : Type} {f : Civil → Except EvalError α} {a : α} :
    z.consult i >>= f = .ok a ↔ (z.civil i).InRange ∧ f (z.civil i) = .ok a := by
  by_cases h : (z.civil i).InRange
  · simp [consult_of_inRange h, h, bind, Except.bind]
  · simp [consult_of_not_inRange h, h, bind, Except.bind]

/-- What ends with a civil time ends at the instant that is meant by it. -/
theorem bind_localize_eq_ok_iff {result : Except EvalError Civil} :
    result >>= z.localize = .ok r ↔ ∃ c, result = .ok c ∧ z.localize? c = some r := by
  cases result with
  | error e => simp [bind, Except.bind]
  | ok c =>
      have hlocalize : z.localize c = .ok r ↔ z.localize? c = some r := orOutOfRange_eq_ok_iff
      simpa [bind, Except.bind] using hlocalize

/-- The seconds by which the clocks skip a civil time: an hour where none shows it. -/
def skipped (z : Zone) (c : Civil) : Int :=
  if (z.earliest? c).isSome then 0 else 3600

/-- Nothing is skipped at a reading that the clock shows. -/
theorem skipped_of_earliest? (h : z.earliest? c = some r) : z.skipped c = 0 := by
  simp [skipped, h]

/-- An hour is skipped at most. -/
theorem skipped_bounds (z : Zone) (c : Civil) : 0 ≤ z.skipped c ∧ z.skipped c ≤ 3600 := by
  unfold skipped
  split <;> omega

/-- The clock at the instant that is meant shows the civil time, or an hour later where
that is skipped. -/
theorem seconds_civil_of_localize? (h : z.localize? c = some r) :
    (z.civil r).seconds = c.seconds + z.skipped c := by
  rcases localize?_eq_some_iff.1 h with hfound | ⟨hnone, hlater, -⟩
  · rw [skipped_of_earliest? hfound, (earliest?_eq_some_iff.1 hfound).1, Int.add_zero]
  · rw [(earliest?_eq_some_iff.1 hlater).1, Civil.seconds_add_hour]
    simp [skipped, hnone]

/-- Away from leap seconds the fraction of the second is kept. -/
theorem nanos_of_localize? (hc : c.isLeapSecond = false) (h : z.localize? c = some r) :
    r.utc.nanos = c.nanos := by
  rw [← nanos_civil z]
  rcases civil_of_localize?_cases h with hshown | ⟨hlater, -⟩
  · rw [hshown]
  · rw [hlater, Civil.nanos_add_hour, Nat.mod_eq_of_lt (Civil.isLeapSecond_eq_false_iff.1 hc)]

/-- By how many seconds `r`, meant by a civil time `c`, is later than where the clock of `i`
would have shown `c`: by what the clocks are set back from `i` to `r`, and by an hour more
where they skip `c`. -/
def slip (z : Zone) (i r : Instant) (c : Civil) : Int :=
  z.offsetAt i.unix - z.offsetAt r.unix + z.skipped c

/-- Seen from an instant, what is meant by a civil time lies where the clock of the instant
would have shown it, but for the slip. -/
theorem unix_of_localize? (h : z.localize? c = some r) (i : Instant) :
    r.unix - i.unix = c.seconds - (z.civil i).seconds + z.slip i r c := by
  have hr := seconds_civil_of_localize? h
  rw [seconds_civil_eq] at hr
  rw [seconds_civil_eq, slip]
  omega

/-- The first instant with the civil time `c` is one at which clocks are as far ahead of UTC
as they are at `i`. -/
def Keeps (z : Zone) (i : Instant) (c : Civil) : Prop :=
  ∃ r, z.earliest? c = some r ∧ z.offsetAt r.unix = z.offsetAt i.unix

/-- Nothing slips where the offset is kept. -/
theorem Keeps.exists_localize? (h : z.Keeps i c) :
    ∃ r, z.localize? c = some r ∧ z.slip i r c = 0 := by
  obtain ⟨r, hr, hoffset⟩ := h
  refine ⟨r, localize?_of_earliest? hr, ?_⟩
  rw [slip, skipped_of_earliest? hr, hoffset]
  omega

/-- What is meant by a civil time is at most a day and an hour away from it in UTC. -/
theorem localize?_bounds (h : z.localize? c = some r) :
    c.seconds - 86400 < r.unix ∧ r.unix < c.seconds + 90000 := by
  have hr := seconds_civil_of_localize? h
  have hskip := z.skipped_bounds c
  have hoffset := z.offsetAt_bounds r.unix
  rw [seconds_civil_eq] at hr
  omega

end Zone

end Almanac
