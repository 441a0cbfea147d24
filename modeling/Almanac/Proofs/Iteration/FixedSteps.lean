import Almanac.Proofs.Iteration.Run

/-!
# Steps of a fixed span

Away from leap seconds, a range that is divided by a fixed span has its steps in closed
form.  Step `k` begins `k` spans after the start of the range, and the last step ends
where the range does.  What is left of a range after a step is divided further while it
lasts a second or more, so that the number of steps is a quotient.

Main definitions:

- `Span.times`: a span several times in a row.
- `stepCount`: the number of steps of a range.
- `FixedSteps`: a list of steps in the closed form.

Main results:

- Theorem `lt_stepCount_iff`: the steps that leave a second or more of the range.
- Theorem `FixedRange.after_eq`: the invariant of the run, how far it has come.
- Theorem `iterateRange_fixed`: the steps of a range, or too many, or none.
-/

namespace Almanac

/-- A span `n` times in a row. -/
def Span.times (d : Span) (n : Nat) : Span :=
  ⟨n * d.nanos⟩

/-- The length of a span that is taken several times. -/
@[simp]
theorem Span.nanos_times (d : Span) (n : Nat) : (d.times n).nanos = n * d.nanos :=
  rfl

/-- A span that is taken once more. -/
theorem Span.times_succ (d : Span) (n : Nat) :
    d.times (n + 1) = ⟨(d.times n).nanos + d.nanos⟩ := by
  simp only [Span.times, Int.natCast_add, Int.natCast_one, Int.add_mul, Int.one_mul]

/-- The number of steps in a range that lasts `length`. -/
def stepCount (length step : Span) : Nat :=
  if length.nanos < Span.second.nanos then 0
  else ((length.nanos - Span.second.nanos) / step.nanos).toNat + 1

/-- There is a step with `k` others before it exactly if those leave a second or more. -/
theorem lt_stepCount_iff {length step : Span} (hstep : Span.second.nanos ≤ step.nanos)
    (k : Nat) :
    k < stepCount length step ↔ (step.times k).nanos + Span.second.nanos ≤ length.nanos := by
  have hpos : 0 < step.nanos := Int.lt_of_lt_of_le (by decide) hstep
  have hnonneg : 0 ≤ (k : Int) * step.nanos := Int.mul_nonneg (by omega) (by omega)
  rw [Span.nanos_times]
  unfold stepCount
  split <;> rename_i hlength
  · omega
  · have hquotient : (k : Int) ≤ (length.nanos - Span.second.nanos) / step.nanos ↔
        (k : Int) * step.nanos ≤ length.nanos - Span.second.nanos :=
      Int.le_ediv_iff_mul_le hpos
    have : 0 ≤ (length.nanos - Span.second.nanos) / step.nanos :=
      Int.ediv_nonneg (by omega) (by omega)
    omega

/-! ## The points where steps meet -/

/-- A range away from leap seconds, and the points that lie whole spans after its start,
one beyond the last step included. -/
structure FixedRange where
  start : Instant
  stop : Instant
  span : Span
  /-- The point that lies so many spans after the start. -/
  point : Nat → Instant
  start_le_stop : start ≤ stop
  start_not_leap : start.isLeapSecond = false
  stop_not_leap : stop.isLeapSecond = false
  second_le_span : Span.second.nanos ≤ span.nanos
  add?_eq : ∀ k ≤ stepCount (stop.since start) span + 1,
    start.add? (span.times k) = some (point k)

namespace FixedRange

variable (r : FixedRange)

/-- The number of steps of a range. -/
def count : Nat :=
  stepCount (r.stop.since r.start) r.span

variable {r} {k : Nat}

/-- Every point of a range is on the calendar. -/
theorem add?_start (hk : k ≤ r.count + 1) :
    r.start.add? (r.span.times k) = some (r.point k) :=
  r.add?_eq k hk

/-- No point of a range lies within a leap second. -/
theorem point_not_leap (hk : k ≤ r.count + 1) : (r.point k).isLeapSecond = false :=
  ((Instant.add?_eq_some_iff r.start_not_leap).1 (add?_start hk)).1

/-- The points of a range are as far apart as its span. -/
theorem nanos_point (hk : k ≤ r.count + 1) :
    (r.point k).nanos = r.start.nanos + k * r.span.nanos :=
  ((Instant.add?_eq_some_iff r.start_not_leap).1 (add?_start hk)).2

/-- From each point the span leads to the next. -/
theorem add?_point (hk : k ≤ r.count) : (r.point k).add? r.span = some (r.point (k + 1)) := by
  rw [Instant.add?_add? r.start_not_leap (add?_start (by omega)), ← add?_start (by omega),
    Span.times_succ]

/-- There is a step from a point if a second or more is left. -/
theorem lt_count_iff (hk : k ≤ r.count + 1) :
    k < r.count ↔ (r.point k).nanos + Span.second.nanos ≤ r.stop.nanos := by
  rw [count, lt_stepCount_iff r.second_le_span,
    Instant.since_nanos r.stop_not_leap r.start_not_leap, nanos_point hk,
    Span.nanos_times]
  omega

/-- Before the last step a point is not beyond the range. -/
theorem earlier_point (hk : k < r.count) : (r.point k).earlier r.stop = r.point k := by
  apply Instant.earlier_eq_left
  rw [Instant.le_iff_nanos_le (point_not_leap (by omega)) r.stop_not_leap]
  have := (lt_count_iff (by omega)).1 hk
  have : 0 < Span.second.nanos := by decide
  omega

/-- What is reached from a point lies a second or more ahead exactly before the last
step. -/
theorem second_le_since_iff (hk : k ≤ r.count) :
    Span.second.nanos ≤ (((r.point (k + 1)).earlier r.stop).since (r.point k)).nanos ↔
      k < r.count := by
  have hnext := point_not_leap (r := r) (k := k + 1) (by omega)
  have hpoint := point_not_leap (r := r) (k := k) (by omega)
  rw [Instant.since_nanos (Instant.isLeapSecond_earlier hnext r.stop_not_leap) hpoint,
    Instant.nanos_earlier hnext r.stop_not_leap, lt_count_iff (by omega)]
  have hspan : (r.point (k + 1)).nanos = (r.point k).nanos + r.span.nanos := by
    rw [nanos_point (by omega), nanos_point (by omega), Int.natCast_add, Int.add_mul]
    omega
  have := r.second_le_span
  omega

/-! ## The run -/

/-- The plan to divide a range. -/
def plan (r : FixedRange) (context : Context) : Plan where
  context := context
  stop := r.stop
  interval := some (.fixed r.span)
  transform := none

variable (context : Context)

/-- A run goes on from a point to the next one. -/
theorem advance_point (hk : k ≤ r.count) :
    (r.plan context).advance (.fixed r.span) (r.point k) = .ok (r.point (k + 1)) := by
  rw [Plan.advance, add?_point hk, orOutOfRange]

/-- Before the last step there is a next piece, unless the limit is reached. -/
theorem piece?_point (hk : k < r.count) :
    (r.plan context).piece? { current := r.point k, index := k } =
      if k < maxIterations then some (.ok (r.point k, (r.point (k + 1)).earlier r.stop))
      else some (.error (.tooManyIterations maxIterations)) := by
  have hspan := (second_le_since_iff (Nat.le_of_lt hk)).2 hk
  have hlt : r.point k < r.stop := by
    rw [Instant.lt_iff_nanos_lt (point_not_leap (by omega)) r.stop_not_leap]
    have := (lt_count_iff (by omega)).1 hk
    have : 0 < Span.second.nanos := by decide
    omega
  have hreached := advance_point context (Nat.le_of_lt hk)
  split <;> rename_i hlimit
  · exact (Plan.piece?_eq_ok_iff rfl).2
      ⟨rfl, hlt, rfl, ⟨r.point (k + 1), hreached, rfl⟩, hspan, hlimit⟩
  · exact Plan.piece?_eq_tooManyIterations rfl rfl hlt hreached hspan (Nat.not_lt.1 hlimit)

/-- After `k` steps the run has come to point `k`, or to the end of the range. -/
theorem after_eq (hk : k ≤ r.count) (hlimit : k ≤ maxIterations) :
    (r.plan context).after { current := r.start } k =
      { current := (r.point k).earlier r.stop, index := k } := by
  induction k with
  | zero =>
      have hzero : r.point 0 = r.start := by
        apply Instant.eq_of_nanos_eq (point_not_leap (by omega)) r.start_not_leap
        rw [nanos_point (by omega)]
        simp
      rw [Plan.after_zero, hzero, Instant.earlier_eq_left r.start_le_stop]
  | succ k ih =>
      have hpiece := piece?_point context (k := k) hk
      rw [if_pos (Nat.lt_of_succ_le hlimit)] at hpiece
      rw [Plan.after_succ, ih (by omega) (by omega), earlier_point hk]
      have hnext := Plan.next_eq_ok_iff.2 ⟨_, hpiece, rfl, rfl⟩
      rw [hnext]
      rfl

/-- The step with `k` others before it. -/
def step (r : FixedRange) (k : Nat) : Step where
  index := k
  start := r.point k
  stop := (r.point (k + 1)).earlier r.stop

/-- Each call up to the limit yields the step in its place. -/
theorem outcome_eq_step (hk : k < r.count) (hlimit : k < maxIterations) :
    (r.plan context).outcome { current := r.start } k = some (.ok (r.step k)) := by
  have hpiece := piece?_point context hk
  rw [if_pos hlimit] at hpiece
  rw [Plan.outcome, after_eq context (by omega) (by omega), earlier_point hk]
  rw [Plan.next_eq_ok_iff.2 ⟨_, hpiece, rfl, rfl⟩]
  rfl

/-- After the last step the run ends. -/
theorem outcome_count (hlimit : r.count ≤ maxIterations) :
    (r.plan context).outcome { current := r.start } r.count = none := by
  rw [Plan.outcome, after_eq context (Nat.le_refl _) hlimit]
  have hpiece : (r.plan context).piece?
      { current := (r.point r.count).earlier r.stop, index := r.count } = none := by
    by_cases hle : r.stop ≤ r.point r.count
    · rw [Instant.earlier_eq_right hle]
      exact Plan.piece?_eq_none_of_le rfl (Instant.le_refl _)
    · have hpoint : (r.point r.count).earlier r.stop = r.point r.count := by
        exact Instant.earlier_eq_left (Instant.le_of_lt (Instant.not_le.1 hle))
      rw [hpoint]
      apply Plan.piece?_eq_none_of_lt rfl (advance_point context (Nat.le_refl _))
      exact Int.not_le.1 fun hspan =>
        Nat.lt_irrefl _ ((second_le_since_iff (Nat.le_refl _)).1 hspan)
  rw [Plan.next, hpiece]

/-- Beyond the limit the run ends with an error. -/
theorem outcome_maxIterations (hlimit : maxIterations < r.count) :
    (r.plan context).outcome { current := r.start } maxIterations =
      some (.error (.tooManyIterations maxIterations)) := by
  have hpiece := piece?_point context hlimit
  rw [if_neg (Nat.lt_irrefl _)] at hpiece
  rw [Plan.outcome, after_eq context (Nat.le_of_lt hlimit) (Nat.le_refl _),
    earlier_point hlimit, Plan.next, hpiece]

/-- Within the limit the steps of a range are those of the closed form. -/
theorem collect_eq_ok (hlimit : r.count ≤ maxIterations) :
    (r.plan context).collect { current := r.start } = .ok ((List.range r.count).map r.step) := by
  rw [Plan.collect_eq_ok_iff]
  constructor
  · intro k hk
    rw [List.length_map, List.length_range] at hk
    rw [outcome_eq_step context hk (by omega)]
    simp
  · rw [List.length_map, List.length_range]
    exact outcome_count context hlimit

/-- Beyond the limit a range has no steps at all. -/
theorem collect_eq_error (hlimit : maxIterations < r.count) :
    (r.plan context).collect { current := r.start } =
      .error (.tooManyIterations maxIterations) := by
  rw [Plan.collect_eq_error_iff]
  exact ⟨maxIterations, fun k hk => ⟨_, outcome_eq_step context (by omega) hk⟩,
    outcome_maxIterations context hlimit⟩

end FixedRange

/-! ## All ranges -/

/-- Step `k` of a list begins `k` spans after `start` and ends one span later, or at
`stop` if that is earlier. -/
structure FixedSteps (start stop : Instant) (span : Span) (steps : List Step) : Prop where
  length_eq : steps.length = stepCount (stop.since start) span
  index_eq : ∀ k (h : k < steps.length), steps[k].index = k
  start_eq : ∀ k (h : k < steps.length), start.add? (span.times k) = some steps[k].start
  stop_eq : ∀ k (h : k < steps.length), ∃ reached,
    start.add? (span.times (k + 1)) = some reached ∧ steps[k].stop = reached.earlier stop

/-- The steps from one point to the next divide the range. -/
theorem FixedRange.fixedSteps (r : FixedRange) :
    FixedSteps r.start r.stop r.span ((List.range r.count).map r.step) where
  length_eq := by
    rw [List.length_map, List.length_range]
    rfl
  index_eq := by
    intro k hk
    simp [FixedRange.step]
  start_eq := by
    intro k hk
    rw [List.length_map, List.length_range] at hk
    simpa [FixedRange.step] using add?_start (by omega)
  stop_eq := by
    intro k hk
    rw [List.length_map, List.length_range] at hk
    exact ⟨r.point (k + 1), add?_start (by omega), by simp [FixedRange.step]⟩

/-- Every range of which the calendar covers one point beyond the last step has all its
points. -/
theorem exists_fixedRange {start stop : Instant} {span : Span} (hle : start ≤ stop)
    (hstart : start.isLeapSecond = false) (hstop : stop.isLeapSecond = false)
    (hspan : Span.second.nanos ≤ span.nanos)
    (hcovered : (start.add? (span.times (stepCount (stop.since start) span + 1))).isSome) :
    ∃ r : FixedRange, r.start = start ∧ r.stop = stop ∧ r.span = span := by
  have hpoints : ∀ k ≤ stepCount (stop.since start) span + 1,
      start.add? (span.times k) = some ((start.add? (span.times k)).getD start) := by
    intro k hk
    have hnonneg : 0 ≤ span.nanos := Int.le_trans (by decide) hspan
    have hsome : (start.add? (span.times k)).isSome := by
      apply Instant.isSome_add?_of_le hstart _ _ hcovered
      · exact Int.mul_nonneg (by omega) hnonneg
      · exact Int.mul_le_mul_of_nonneg_right (by omega) hnonneg
    obtain ⟨reached, hreached⟩ := Option.isSome_iff_exists.1 hsome
    rw [hreached]
    rfl
  exact ⟨⟨start, stop, span, _, hle, hstart, hstop, hspan, hpoints⟩, rfl, rfl, rfl⟩

/-- A span of less than a second leads nowhere. -/
theorem collect_of_span_lt_second (context : Context) {start stop reached : Instant}
    {span : Span} (hstart : start.isLeapSecond = false) (hstop : stop.isLeapSecond = false)
    (hspan : span.nanos < Span.second.nanos) (hreached : start.add? span = some reached) :
    Plan.collect { context, stop, interval := some (.fixed span), transform := none }
      { current := start } = .ok [] := by
  obtain ⟨hleap, hnanos⟩ := (Instant.add?_eq_some_iff hstart).1 hreached
  apply Plan.collect_of_none
  rw [Plan.next, @Plan.piece?_eq_none_of_lt _ _ _ reached rfl]
  · rw [Plan.advance, hreached, orOutOfRange]
  · rw [Instant.since_nanos (Instant.isLeapSecond_earlier hleap hstop) hstart,
      Instant.nanos_earlier hleap hstop, hnanos]
    omega

/-- Division by a fixed span, away from leap seconds.  With a span of a second or more
the steps are those of the closed form, or an error if they are too many; with a shorter
span, be it zero or negative, there are none. -/
theorem iterateRange_fixed (context : Context) {start stop : Instant} (span : Span)
    (hle : start ≤ stop) (hstart : start.isLeapSecond = false)
    (hstop : stop.isLeapSecond = false) :
    (Span.second.nanos ≤ span.nanos →
      (start.add? (span.times (stepCount (stop.since start) span + 1))).isSome →
        (stepCount (stop.since start) span ≤ maxIterations →
          ∃ steps, iterateRange context start stop (some (.fixed span)) none = .ok steps ∧
            FixedSteps start stop span steps) ∧
        (maxIterations < stepCount (stop.since start) span →
          iterateRange context start stop (some (.fixed span)) none =
            .error (.tooManyIterations maxIterations))) ∧
    (span.nanos < Span.second.nanos → (start.add? span).isSome →
      iterateRange context start stop (some (.fixed span)) none = .ok []) := by
  have hnot : ¬ (Option.isSome (some (Interval.fixed span)) ∧ stop < start) :=
    fun h => Instant.not_le.2 h.2 hle
  rw [iterateRange_eq, if_neg hnot]
  constructor
  · intro hspan hcovered
    obtain ⟨r, rfl, rfl, rfl⟩ := exists_fixedRange hle hstart hstop hspan hcovered
    exact ⟨fun hcount => ⟨_, FixedRange.collect_eq_ok context hcount, r.fixedSteps⟩,
      fun hcount => FixedRange.collect_eq_error context hcount⟩
  · intro hspan hcovered
    obtain ⟨reached, hreached⟩ := Option.isSome_iff_exists.1 hcovered
    exact collect_of_span_lt_second context hstart hstop hspan hreached

/-- Noon on 1 January 1970 in UTC. -/
def noon : Instant :=
  Instant.ofSeconds 43200

/-- Two and a half seconds after noon. -/
def pastNoon : Instant :=
  ⟨{ seconds := 43202, nanos := 500000000 }, by decide⟩

/-- As many seconds after noon as the limit of steps, and one more. -/
def farPastNoon : Instant :=
  Instant.ofSeconds 53201

/-- Seconds past noon, a few and too many; and a span below zero, which gives no step. -/
theorem iterateRange_fixed_noon :
    (∃ steps,
      iterateRange Plan.bySecond.context noon pastNoon (some (.fixed Span.second)) none =
        .ok steps ∧
      FixedSteps noon pastNoon Span.second steps) ∧
    iterateRange Plan.bySecond.context noon farPastNoon (some (.fixed Span.second)) none =
      .error (.tooManyIterations maxIterations) ∧
    iterateRange Plan.bySecond.context noon pastNoon (some (.fixed ⟨-1⟩)) none = .ok [] := by
  have hshort := @iterateRange_fixed Plan.bySecond.context noon pastNoon
  have hlong := @iterateRange_fixed Plan.bySecond.context noon farPastNoon
  refine ⟨?_, ?_, ?_⟩
  · exact ((hshort Span.second (by decide) rfl rfl).1 (by decide) rfl).1 (by decide)
  · exact ((hlong Span.second (by decide) rfl rfl).1 (by decide) rfl).2 (by decide)
  · exact (hshort ⟨-1⟩ (by decide) rfl rfl).2 (by decide) rfl

end Almanac
