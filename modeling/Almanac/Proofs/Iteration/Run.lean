import Almanac.Iteration.Basic
import Almanac.Proofs.Eval.Failure
import Almanac.Proofs.Instant.Elapsed
import Mathlib.Tactic.ByContra

/-!
# Runs of an iteration

A run asks an iteration for its next outcome again and again.  This module says once
what one call can do, and derives from it the shape of every run: a list of steps with
the indexes 0, 1, 2 and so on, then an error or the end, and from then on nothing; or the run
breaks off after its steps, at an instant whose civil time the calendar does not cover.

Main definitions:

- `Plan.after`, `Plan.outcome`: the progress after some calls, and the outcome of the
  call that follows.
- `Plan.emitted`: the steps that a run yields before it ends.
- `Plan.Ends`: the three ways in which a run ends.
- `lastStop`: where the last of some steps ends.

Main results:

- Theorem `Plan.next_eq_ok_iff`: what a call does that yields a step.
- Theorem `Plan.index_after`: an iteration that is not over has counted its steps.
- Theorem `Plan.emitted_eq_iff`: the emitted steps are those of the outcomes.
- Theorem `Plan.collect_eq`: to collect is to emit all steps, unless an error ends the run.
- Theorem `Plan.orderly_emitted`: every run is numbered, bounded, and ends.
- Theorem `Plan.divides_of_interval`: without a transform the steps divide the range.
- Theorem `Plan.run_invariant`: the invariant of a run from its first step on.
- Theorem `Plan.rest_lt_of_outcome`: what a run leaves of the range.
-/

namespace Almanac

namespace Plan

variable {plan : Plan} {p q : Progress} {step : Step}

/-! ## Repeated calls -/

/-- The progress after `n` calls. -/
def after (plan : Plan) (p : Progress) : Nat → Progress
  | 0 => p
  | n + 1 => plan.after (plan.next p).2 n

/-- The outcome of the call that comes after `k` others. -/
def outcome (plan : Plan) (p : Progress) (k : Nat) : Option (Except IterationError Step) :=
  (plan.next (plan.after p k)).1

@[simp]
theorem after_zero (plan : Plan) (p : Progress) : plan.after p 0 = p :=
  rfl

/-- Calls in two parts are made one part after the other. -/
theorem after_add (plan : Plan) (p : Progress) (m n : Nat) :
    plan.after p (m + n) = plan.after (plan.after p m) n := by
  induction m generalizing p with
  | zero => rw [Nat.zero_add, after_zero]
  | succ m ih =>
      rw [Nat.add_right_comm]
      exact ih (plan.next p).2

/-- The last of several calls starts where the others lead. -/
theorem after_succ (plan : Plan) (p : Progress) (n : Nat) :
    plan.after p (n + 1) = (plan.next (plan.after p n)).2 :=
  after_add plan p n 1

/-- The calls after the first one are those of the run that goes on from it. -/
theorem outcome_succ (plan : Plan) (p : Progress) (k : Nat) :
    plan.outcome p (k + 1) = plan.outcome (plan.next p).2 k :=
  rfl

/-! ## One call -/

/-- The next piece of a range starts where the iteration has come to. -/
theorem start_of_piece? {start stop : Instant} (h : plan.piece? p = some (.ok (start, stop))) :
    start = p.current := by
  unfold piece? at h
  split at h
  · cases h
  · split at h
    · cases h
      rfl
    · split at h
      · cases h
      · split at h
        · cases h
        · simp only at h
          split at h
          · cases h
          · split at h <;> cases h
            rfl

/-- With an interval there is a next piece exactly while the range is not used up, the
next step stays in the calendar and is at least a second long, and the limit of steps
is not reached. -/
theorem piece?_eq_ok_iff {interval : Interval} {start stop : Instant}
    (hinterval : plan.interval = some interval) :
    plan.piece? p = some (.ok (start, stop)) ↔
      p.done = false ∧ p.current < plan.stop ∧ start = p.current ∧
        (∃ reached, plan.advance interval p.current = .ok reached ∧
          stop = reached.earlier plan.stop) ∧
        Span.second.nanos ≤ (stop.since start).nanos ∧ p.index < maxIterations := by
  constructor
  · intro h
    have hstart := start_of_piece? h
    have hindex := index_lt_of_piece? (by rw [hinterval]; rfl) h
    subst hstart
    simp only [piece?, hinterval] at h
    split at h
    · cases h
    · rename_i hdone
      split at h
      · cases h
      · rename_i hlt
        split at h
        · cases h
        · rename_i reached hreached
          split at h
          · cases h
          · rename_i hspan
            split at h
            · cases h
            · cases h
              exact ⟨by simpa using hdone, Instant.not_le.1 hlt, rfl, ⟨reached, hreached, rfl⟩,
                Int.not_lt.1 hspan, hindex⟩
  · rintro ⟨hdone, hlt, rfl, ⟨reached, hreached, rfl⟩, hspan, hindex⟩
    simp [piece?, hdone, hinterval, Instant.not_le.2 hlt, hreached, Int.not_lt.2 hspan,
      Nat.not_le.2 hindex]

/-- There is no next piece of a range that is used up. -/
theorem piece?_eq_none_of_le {interval : Interval} (hinterval : plan.interval = some interval)
    (h : plan.stop ≤ p.current) : plan.piece? p = none := by
  simp [piece?, hinterval, h]

/-- There is no next piece that would last less than a second. -/
theorem piece?_eq_none_of_lt {interval : Interval} {reached : Instant}
    (hinterval : plan.interval = some interval)
    (hreached : plan.advance interval p.current = .ok reached)
    (h : ((reached.earlier plan.stop).since p.current).nanos < Span.second.nanos) :
    plan.piece? p = none := by
  simp [piece?, hinterval, hreached, h]

/-- A piece beyond the limit of steps is an error. -/
theorem piece?_eq_tooManyIterations {interval : Interval} {reached : Instant}
    (hinterval : plan.interval = some interval) (hdone : p.done = false)
    (hlt : p.current < plan.stop) (hreached : plan.advance interval p.current = .ok reached)
    (hspan : Span.second.nanos ≤ ((reached.earlier plan.stop).since p.current).nanos)
    (hindex : maxIterations ≤ p.index) :
    plan.piece? p = some (.error (.tooManyIterations maxIterations)) := by
  simp [piece?, hinterval, hdone, Instant.not_le.2 hlt, hreached, Int.not_lt.2 hspan, hindex]

/-- There is no next piece exactly if the iteration is over, the range is used up, or the next
step would last less than a second. -/
theorem piece?_eq_none_iff {interval : Interval} (hinterval : plan.interval = some interval) :
    plan.piece? p = none ↔
      p.done = true ∨ plan.stop ≤ p.current ∨ ∃ reached,
        plan.advance interval p.current = .ok reached ∧
          ((reached.earlier plan.stop).since p.current).nanos < Span.second.nanos := by
  constructor
  · intro h
    simp only [piece?, hinterval] at h
    split at h
    · rename_i hdone
      exact .inl hdone
    · split at h
      · rename_i hle
        exact .inr (.inl hle)
      · split at h
        · cases h
        · rename_i reached hreached
          split at h
          · rename_i hspan
            exact .inr (.inr ⟨reached, hreached, hspan⟩)
          · split at h <;> cases h
  · rintro (hdone | hle | ⟨reached, hreached, hspan⟩)
    · exact piece?_of_done hdone
    · exact piece?_eq_none_of_le hinterval hle
    · exact piece?_eq_none_of_lt hinterval hreached hspan

/-- The next piece is an error exactly while the range is not used up, if the next step leaves
the calendar, or is at least a second long and the limit of steps is reached. -/
theorem piece?_eq_error_iff {interval : Interval} {e : IterationError}
    (hinterval : plan.interval = some interval) :
    plan.piece? p = some (.error e) ↔
      p.done = false ∧ p.current < plan.stop ∧
        ((∃ cause, plan.advance interval p.current = .error cause ∧ e = .eval cause) ∨
          ∃ reached, plan.advance interval p.current = .ok reached ∧
            Span.second.nanos ≤ ((reached.earlier plan.stop).since p.current).nanos ∧
            maxIterations ≤ p.index ∧ e = .tooManyIterations maxIterations) := by
  constructor
  · intro h
    simp only [piece?, hinterval] at h
    split at h
    · cases h
    · rename_i hdone
      split at h
      · cases h
      · rename_i hlt
        refine ⟨by simpa using hdone, Instant.not_le.1 hlt, ?_⟩
        split at h
        · rename_i cause hcause
          cases h
          exact .inl ⟨cause, hcause, rfl⟩
        · rename_i reached hreached
          split at h
          · cases h
          · rename_i hspan
            split at h <;> cases h
            rename_i hindex
            exact .inr ⟨reached, hreached, Int.not_lt.1 hspan, hindex, rfl⟩
  · rintro ⟨hdone, hlt, ⟨cause, hcause, rfl⟩ | ⟨reached, hreached, hspan, hindex, rfl⟩⟩
    · simp [piece?, hdone, hinterval, Instant.not_le.2 hlt, hcause]
    · exact piece?_eq_tooManyIterations hinterval hdone hlt hreached hspan hindex

/-- One interval later fails by a limit of the calendar, or breaks off. -/
theorem failsBy_advance (plan : Plan) (interval : Interval) (i : Instant) :
    FailsBy (EvalError.OfArguments plan.context.zone) (plan.advance interval i) := by
  cases interval with
  | fixed span => exact failsBy_orOutOfRange plan.context.zone _ _
  | calendar months => exact failsBy_shift plan.context.zone i months 'M'

/-- What is reported of a step breaks off where the calendar ends only. -/
theorem failsBy_report (plan : Plan) (index : Nat) (start stop : Instant) :
    FailsBy (EvalError.IsFounded plan.context.zone) (plan.report index start stop) := by
  unfold report
  split
  · exact .ok _
  · exact .bind (failsBy_evaluateTransform plan.context _ start stop index) fun _ => .ok _

/-- The next piece breaks off where the calendar ends only. -/
theorem not_inRange_of_piece? {i : Instant}
    (h : plan.piece? p = some (.error (.eval (.brokenOff i)))) :
    ¬ (plan.context.zone.civil i).InRange := by
  cases hinterval : plan.interval with
  | none =>
      unfold piece? at h
      simp only [hinterval] at h
      split at h <;> cases h
  | some interval =>
      obtain ⟨-, -, ⟨cause, hcause, heq⟩ | ⟨reached, -, -, -, heq⟩⟩ :=
        (piece?_eq_error_iff hinterval).1 h
      · obtain rfl := IterationError.eval.inj heq
        exact failsBy_advance plan interval p.current _ hcause
      · cases heq

/-- A call breaks off where the calendar ends only. -/
theorem not_inRange_of_next {i : Instant}
    (h : (plan.next p).1 = some (.error (.eval (.brokenOff i)))) :
    ¬ (plan.context.zone.civil i).InRange := by
  unfold next at h
  split at h
  · cases h
  · rename_i e hpiece
    obtain rfl := Except.error.inj (Option.some.inj h)
    exact not_inRange_of_piece? hpiece
  · rename_i start stop hpiece
    split at h
    · rename_i e hreport
      obtain rfl := IterationError.eval.inj (Except.error.inj (Option.some.inj h))
      exact failsBy_report plan p.index start stop _ hreport i rfl
    · cases h

/-- The index of a reported step is the number of steps before it. -/
theorem index_of_report {index : Nat} {start stop : Instant}
    (h : plan.report index start stop = .ok step) : step.index = index := by
  unfold report at h
  split at h
  · cases h
    rfl
  · cases hends : evaluateTransform plan.context ‹_› start stop index with
    | error e => simp [hends, bind, Except.bind] at h
    | ok ends =>
        simp only [hends, bind, Except.bind, pure, Except.pure] at h
        cases h
        rfl

/-- A call yields a step exactly if there is a next piece that can be reported, and then
the iteration goes on from the end of that piece, whatever was reported. -/
theorem next_eq_ok_iff :
    plan.next p = (some (.ok step), q) ↔
      ∃ stop, plan.piece? p = some (.ok (p.current, stop)) ∧
        plan.report p.index p.current stop = .ok step ∧
        q = { current := stop, index := p.index + 1, done := plan.interval.isNone } := by
  constructor
  · intro h
    unfold next at h
    split at h
    · cases h
    · cases h
    · rename_i start stop hpiece
      have hstart := start_of_piece? hpiece
      subst hstart
      split at h
      · cases h
      · rename_i step' hreport
        cases h
        exact ⟨stop, hpiece, hreport, rfl⟩
  · rintro ⟨stop, hpiece, hreport, rfl⟩
    simp [next, hpiece, hreport]

/-- A call yields nothing exactly if there is no next piece. -/
theorem next_eq_none_iff : (plan.next p).1 = none ↔ plan.piece? p = none := by
  unfold next
  split
  · rename_i hpiece
    simp [hpiece]
  · rename_i e hpiece
    simp [hpiece]
  · rename_i start stop hpiece
    split <;> simp [hpiece]

/-- Without a transform a call yields an error exactly if the next piece is one. -/
theorem next_eq_error_iff {e : IterationError} (htransform : plan.transform = none) :
    (plan.next p).1 = some (.error e) ↔ plan.piece? p = some (.error e) := by
  unfold next
  split
  · rename_i hpiece
    simp [hpiece]
  · rename_i e' hpiece
    simp [hpiece]
  · rename_i start stop hpiece
    simp [report, htransform, hpiece]

/-- Only a call that yields a step leaves an iteration that is not over. -/
theorem exists_step_of_not_done (h : (plan.next p).2.done = false) :
    ∃ s, plan.next p = (some (.ok s), (plan.next p).2) := by
  unfold next at h ⊢
  split at h
  · cases h
  · cases h
  · split at h
    · cases h
    · rename_i step hreport
      exact ⟨step, rfl⟩

/-- A call that yields no step is the last one that does anything. -/
theorem done_next (h : ∀ s, (plan.next p).1 ≠ some (.ok s)) : (plan.next p).2.done = true := by
  cases hdone : (plan.next p).2.done with
  | true => rfl
  | false =>
      obtain ⟨s, hs⟩ := exists_step_of_not_done hdone
      exact absurd (congrArg Prod.fst hs) (h s)

/-- A run that is done yields nothing more. -/
theorem next_of_done (h : p.done = true) : plan.next p = (none, p) := by
  have : { p with done := true } = p := by
    rw [← h]
  simp [next, piece?_of_done h, this]

/-- A call that yields a step finds an iteration that is not over. -/
theorem not_done_of_next (h : plan.next p = (some (.ok step), q)) : p.done = false := by
  cases hdone : p.done with
  | false => rfl
  | true =>
      rw [next_of_done hdone] at h
      cases h

/-! ## After the end -/

/-- An iteration that is over stays so. -/
theorem after_of_done (h : p.done = true) (n : Nat) : plan.after p n = p := by
  induction n with
  | zero => rfl
  | succ n ih => rw [after_succ, ih, next_of_done h]

/-- After a call that yields no step, no call yields anything. -/
theorem outcome_eq_none_of_lt {m k : Nat} (hm : ∀ s, plan.outcome p m ≠ some (.ok s))
    (hlt : m < k) : plan.outcome p k = none := by
  have hdone : (plan.after p (m + 1)).done = true := by
    rw [after_succ]
    exact done_next hm
  obtain ⟨i, rfl⟩ := Nat.exists_eq_add_of_le (Nat.succ_le_of_lt hlt)
  rw [outcome, after_add, after_of_done hdone, next_of_done hdone]

/-! ## Counting the steps -/

/-- An iteration that is not over has counted the steps of its run. -/
theorem index_after {k : Nat} (h : (plan.after p k).done = false) :
    (plan.after p k).index = p.index + k := by
  induction k with
  | zero => rfl
  | succ k ih =>
      rw [after_succ] at h ⊢
      obtain ⟨s, hnext⟩ := exists_step_of_not_done h
      obtain ⟨stop, -, -, hq⟩ := next_eq_ok_iff.1 hnext
      rw [hq, ih (not_done_of_next hnext)]
      rfl

/-- What a call in its place yields, and where it leads. -/
theorem next_of_outcome {k : Nat} (h : plan.outcome p k = some (.ok step)) :
    plan.next (plan.after p k) = (some (.ok step), plan.after p (k + 1)) := by
  rw [after_succ, ← h]
  rfl

/-- A step is numbered by the calls before it. -/
theorem index_of_outcome {k : Nat} (h : plan.outcome p k = some (.ok step)) :
    step.index = p.index + k := by
  have hnext := next_of_outcome h
  obtain ⟨stop, -, hreport, -⟩ := next_eq_ok_iff.1 hnext
  rw [index_of_report hreport, index_after (not_done_of_next hnext)]

/-- No run from the first step on yields a step beyond the limit. -/
theorem lt_maxIterations_of_outcome {k : Nat} (hindex : p.index = 0)
    (h : plan.outcome p k = some (.ok step)) : k < maxIterations := by
  have hnext := next_of_outcome h
  have hdone := not_done_of_next hnext
  obtain ⟨stop, hpiece, -, -⟩ := next_eq_ok_iff.1 hnext
  cases hinterval : plan.interval with
  | some interval =>
      have hlt := index_lt_of_piece? (by rw [hinterval]; rfl) hpiece
      rw [index_after hdone] at hlt
      omega
  | none =>
      -- Without an interval the first step is the only one.
      cases k with
      | zero => decide
      | succ k =>
          rw [after_succ] at hdone
          obtain ⟨s, hprevious⟩ := exists_step_of_not_done hdone
          obtain ⟨stop, -, -, hq⟩ := next_eq_ok_iff.1 hprevious
          rw [hq, hinterval] at hdone
          cases hdone

/-! ## The steps of a run -/

/-- The steps that a run yields before an error or the end. -/
def emitted (plan : Plan) (p : Progress) : List Step :=
  match h : plan.next p with
  | (some (.ok step), q) =>
    have := remaining_next_lt h
    step :: plan.emitted q
  | (some (.error _), _) => []
  | (none, _) => []
termination_by p.remaining

/-- Nothing is emitted if the first call yields no step. -/
theorem emitted_eq_nil_iff :
    plan.emitted p = [] ↔ ∀ s, (plan.next p).1 ≠ some (.ok s) := by
  rw [emitted]
  split <;> rename_i hnext <;> simp [hnext]

/-- The first step that is emitted comes from the first call, and the others from the calls after
it. -/
theorem emitted_eq_cons_iff {rest : List Step} :
    plan.emitted p = step :: rest ↔
      (plan.next p).1 = some (.ok step) ∧ plan.emitted (plan.next p).2 = rest := by
  rw [emitted]
  split <;> rename_i hnext <;> simp [hnext]

/-- A list of steps is what a run emits exactly if it lists the outcomes up to the first
that is no step. -/
theorem emitted_eq_iff {steps : List Step} :
    plan.emitted p = steps ↔
      (∀ k (h : k < steps.length), plan.outcome p k = some (.ok steps[k])) ∧
        ∀ s, plan.outcome p steps.length ≠ some (.ok s) := by
  induction steps generalizing p with
  | nil =>
      rw [emitted_eq_nil_iff]
      constructor
      · intro hlast
        exact ⟨by simp, hlast⟩
      · exact fun h => h.2
  | cons first rest ih =>
      rw [emitted_eq_cons_iff, ih]
      constructor
      · rintro ⟨hfirst, hrest, hlast⟩
        refine ⟨?_, hlast⟩
        intro k hk
        cases k with
        | zero => exact hfirst
        | succ k => exact hrest k (Nat.lt_of_succ_lt_succ hk)
      · rintro ⟨hsteps, hlast⟩
        refine ⟨hsteps 0 (by simp), ?_, hlast⟩
        intro k hk
        exact hsteps (k + 1) (Nat.succ_lt_succ hk)

/-- A run that yields nothing has no steps. -/
theorem collect_of_none (h : (plan.next p).1 = none) : plan.collect p = .ok [] := by
  rw [collect]
  split <;> rename_i hnext <;> simp_all

/-- The first error is that of the whole run. -/
theorem collect_of_error {e : IterationError} (h : (plan.next p).1 = some (.error e)) :
    plan.collect p = .error e := by
  rw [collect]
  split <;> rename_i hnext <;> simp_all

/-- A step comes before those of the calls after it. -/
theorem collect_of_step (h : (plan.next p).1 = some (.ok step)) :
    plan.collect p = (plan.collect (plan.next p).2).map (step :: ·) := by
  rw [collect]
  split <;> rename_i hnext <;> simp only [hnext] at h <;> cases h
  rename_i q
  rw [show (plan.next p).2 = q from congrArg Prod.snd hnext]
  cases plan.collect q <;> rfl

/-- To collect the steps of a range is to emit all of them, unless an error ends the run. -/
theorem collect_eq (plan : Plan) (p : Progress) :
    plan.collect p =
      match plan.outcome p (plan.emitted p).length with
      | some (.error e) => .error e
      | _ => .ok (plan.emitted p) := by
  generalize hsteps : plan.emitted p = steps
  induction steps generalizing p with
  | nil =>
      rw [emitted_eq_nil_iff] at hsteps
      rw [outcome, List.length_nil, after_zero]
      split
      · rename_i e hout
        exact collect_of_error hout
      · rename_i hout
        cases hnext : (plan.next p).1 with
        | none => exact collect_of_none hnext
        | some result =>
            cases result with
            | error e => exact absurd hnext (hout e)
            | ok s => exact absurd hnext (hsteps s)
  | cons first rest ih =>
      obtain ⟨hfirst, hrest⟩ := emitted_eq_cons_iff.1 hsteps
      rw [collect_of_step hfirst, ih _ hrest, List.length_cons, outcome_succ]
      split <;> rfl

/-- The steps of a range are the outcomes of a run that comes to its end. -/
theorem collect_eq_ok_iff {steps : List Step} :
    plan.collect p = .ok steps ↔
      (∀ k (h : k < steps.length), plan.outcome p k = some (.ok steps[k])) ∧
        plan.outcome p steps.length = none := by
  rw [collect_eq]
  constructor
  · intro h
    split at h
    · cases h
    · rename_i hlast
      cases h
      obtain ⟨hsteps, hnone⟩ := emitted_eq_iff.1 (rfl : plan.emitted p = plan.emitted p)
      refine ⟨hsteps, ?_⟩
      cases hout : plan.outcome p (plan.emitted p).length with
      | none => rfl
      | some result =>
          cases result with
          | error e => exact absurd hout (hlast e)
          | ok s => exact absurd hout (hnone s)
  · rintro ⟨hsteps, hnone⟩
    have hemitted : plan.emitted p = steps :=
      emitted_eq_iff.2 ⟨hsteps, by simp [hnone]⟩
    rw [hemitted, hnone]

/-- The steps of a range, if no error ends the run, are those emitted. -/
theorem emitted_of_collect {steps : List Step} (h : plan.collect p = .ok steps) :
    plan.emitted p = steps := by
  rw [collect_eq] at h
  split at h
  · cases h
  · exact Except.ok.inj h

/-- A range that is used up before the first step has none. -/
theorem emitted_eq_nil_of_le {interval : Interval} (hinterval : plan.interval = some interval)
    (h : plan.stop ≤ p.current) : plan.emitted p = [] := by
  rw [emitted_eq_nil_iff]
  intro s
  simp [next, piece?_eq_none_of_le hinterval h]

/-- A range has no steps because of an error exactly if that ends the run. -/
theorem collect_eq_error_iff {e : IterationError} :
    plan.collect p = .error e ↔
      ∃ m, (∀ k < m, ∃ s, plan.outcome p k = some (.ok s)) ∧
        plan.outcome p m = some (.error e) := by
  rw [collect_eq]
  obtain ⟨hsteps, hlast⟩ := emitted_eq_iff.1 (rfl : plan.emitted p = plan.emitted p)
  constructor
  · intro h
    split at h <;> cases h
    rename_i hout
    exact ⟨_, fun k hk => ⟨_, hsteps k hk⟩, hout⟩
  · rintro ⟨m, hbefore, hout⟩
    -- Both counts are the number of calls before the first that yields no step.
    have hm : (plan.emitted p).length = m := by
      rcases Nat.lt_trichotomy (plan.emitted p).length m with hlt | heq | hgt
      · obtain ⟨s, hs⟩ := hbefore _ hlt
        exact absurd hs (hlast s)
      · exact heq
      · rw [hsteps m hgt] at hout
        cases hout
    rw [hm, hout]

/-! ## The invariant of a run -/

/-- A run begins at the start of the range, with nothing counted. -/
theorem eq_of_begin {start : Instant} (h : plan.begin start = .ok p) :
    p = { current := start } := by
  unfold begin at h
  split at h
  · cases h
  · cases h
    rfl

/-- The ways in which a run ends after `m` calls: with nothing more, or with one error, and from then
on nothing; or it breaks off, which is no error and leaves no later call. -/
inductive Ends (plan : Plan) (p : Progress) (m : Nat) : Prop
  | over (last : plan.outcome p m = none) (rest : ∀ k, m < k → plan.outcome p k = none)
  | failed {e : IterationError} (last : plan.outcome p m = some (.error e))
      (reported : ∀ i, e ≠ .eval (.brokenOff i)) (rest : ∀ k, m < k → plan.outcome p k = none)
  | brokenOff {i : Instant} (last : plan.outcome p m = some (.error (.eval (.brokenOff i))))
      (uncovered : ¬ (plan.context.zone.civil i).InRange)

/-- A run that yields `m` steps: not more than the limit, numbered from 0 without a gap; then it
ends. -/
structure Orderly (plan : Plan) (p : Progress) (m : Nat) : Prop where
  le_maxIterations : m ≤ maxIterations
  numbered : ∀ k < m, ∃ s, plan.outcome p k = some (.ok s) ∧ s.index = k
  ends : plan.Ends p m

/-- A run ends with the first call that yields no step. -/
theorem ends_of_outcome {m : Nat} (h : ∀ s, plan.outcome p m ≠ some (.ok s)) : plan.Ends p m := by
  have hrest (k : Nat) (hk : m < k) : plan.outcome p k = none := outcome_eq_none_of_lt h hk
  cases hout : plan.outcome p m with
  | none => exact .over hout hrest
  | some result =>
      cases result with
      | ok s => exact absurd hout (h s)
      | error e =>
          by_cases hbreak : ∃ i, e = .eval (.brokenOff i)
          · obtain ⟨i, rfl⟩ := hbreak
            exact .brokenOff hout (not_inRange_of_next hout)
          · exact .failed hout (not_exists.1 hbreak) hrest

/-- Every run from the first step on is orderly. -/
theorem orderly_emitted (hindex : p.index = 0) : plan.Orderly p (plan.emitted p).length := by
  obtain ⟨hsteps, hlast⟩ := emitted_eq_iff.1 (rfl : plan.emitted p = plan.emitted p)
  refine ⟨?_, ?_, ends_of_outcome hlast⟩
  · by_contra hlarge
    exact absurd (lt_maxIterations_of_outcome hindex (hsteps maxIterations (by omega)))
      (Nat.lt_irrefl _)
  · intro k hk
    exact ⟨_, hsteps k hk, by rw [index_of_outcome (hsteps k hk), hindex, Nat.zero_add]⟩

/-- A run whose steps divide a range from `start` on: they join, each begins later than
all before it and lasts at least a second, and none goes beyond the end of the range. -/
structure Divides (plan : Plan) (start : Instant) (p : Progress) : Prop where
  first_start : ∀ s, plan.outcome p 0 = some (.ok s) → s.start = start
  joined : ∀ k s t, plan.outcome p k = some (.ok s) → plan.outcome p (k + 1) = some (.ok t) →
    s.stop = t.start
  increasing : ∀ j k s t, j < k → plan.outcome p j = some (.ok s) →
    plan.outcome p k = some (.ok t) → s.start < t.start
  second_le : ∀ k s, plan.outcome p k = some (.ok s) →
    Span.second.nanos ≤ (s.stop.since s.start).nanos
  stop_le : ∀ k s, plan.outcome p k = some (.ok s) → s.stop ≤ plan.stop

section Untransformed

variable {interval : Interval}

/-- Without a transform the steps are the pieces of the range. -/
theorem step_of_outcome (hinterval : plan.interval = some interval)
    (htransform : plan.transform = none) {k : Nat} (h : plan.outcome p k = some (.ok step)) :
    step.start = (plan.after p k).current ∧ step.stop = (plan.after p (k + 1)).current ∧
      Span.second.nanos ≤ (step.stop.since step.start).nanos ∧ step.stop ≤ plan.stop := by
  obtain ⟨stop, hpiece, hreport, hq⟩ := next_eq_ok_iff.1 (next_of_outcome h)
  obtain ⟨-, -, -, ⟨reached, -, rfl⟩, hspan, -⟩ := (piece?_eq_ok_iff hinterval).1 hpiece
  simp only [report, htransform] at hreport
  cases hreport
  exact ⟨rfl, by rw [hq], hspan, Instant.earlier_le_right _ _⟩

/-- An iteration moves on as long as it yields steps. -/
theorem current_lt_of_lt (hinterval : plan.interval = some interval)
    (htransform : plan.transform = none) {j k : Nat} (hlt : j < k)
    (h : ∀ i < k, ∃ s, plan.outcome p i = some (.ok s)) :
    (plan.after p j).current < (plan.after p k).current := by
  induction k with
  | zero => exact absurd hlt (Nat.not_lt_zero j)
  | succ k ih =>
      obtain ⟨s, hs⟩ := h k (Nat.lt_succ_self k)
      obtain ⟨hstart, hstop, hspan, -⟩ := step_of_outcome hinterval htransform hs
      have hstep : (plan.after p k).current < (plan.after p (k + 1)).current := by
        rw [← hstart, ← hstop]
        exact Instant.lt_of_second_le_since hspan
      rcases Nat.lt_succ_iff_lt_or_eq.1 hlt with hlt | rfl
      · exact Instant.lt_trans (ih hlt fun i hi => h i (Nat.lt_succ_of_lt hi)) hstep
      · exact hstep

/-- With an interval and no transform the steps divide the range. -/
theorem divides_of_interval (hinterval : plan.interval = some interval)
    (htransform : plan.transform = none) : plan.Divides p.current p where
  first_start := fun s hs => (step_of_outcome hinterval htransform hs).1
  joined := by
    intro k s t hs ht
    rw [(step_of_outcome hinterval htransform hs).2.1,
      (step_of_outcome hinterval htransform ht).1]
  increasing := by
    intro j k s t hlt hs ht
    rw [(step_of_outcome hinterval htransform hs).1, (step_of_outcome hinterval htransform ht).1]
    apply current_lt_of_lt hinterval htransform hlt
    intro i hi
    by_contra hnone
    rw [outcome_eq_none_of_lt (not_exists.1 hnone) hi] at ht
    cases ht
  second_le := fun k s hs => (step_of_outcome hinterval htransform hs).2.2.1
  stop_le := fun k s hs => (step_of_outcome hinterval htransform hs).2.2.2

end Untransformed

/-- The invariant of a run: it is orderly, so that it always ends, and breaks off only at an instant
whose civil time the calendar does not cover; and with an interval and no transform its steps divide
the range. -/
theorem run_invariant {start : Instant} (hbegin : plan.begin start = .ok p) :
    (∃ m, plan.Orderly p m) ∧
      (plan.interval.isSome → plan.transform = none → plan.Divides start p) := by
  rw [eq_of_begin hbegin]
  refine ⟨⟨_, orderly_emitted rfl⟩, ?_⟩
  intro hinterval htransform
  obtain ⟨interval, hinterval⟩ := Option.isSome_iff_exists.1 hinterval
  exact divides_of_interval (p := { current := start }) hinterval htransform

/-- Steps of a second in UTC, up to two seconds after a minute past noon. -/
def bySecond : Plan where
  context := { now := Instant.epoch, zone := Zone.zero }
  stop := Instant.ofSeconds 43262
  interval := some (.fixed Span.second)
  transform := none

/-- A quarter of a second into a leap second right before a minute past noon. -/
def withinLeapSecond : Instant :=
  ⟨{ seconds := 43259, nanos := 1250000000 }, by decide⟩

/-- A run from within a leap second yields at least two steps. -/
theorem run_invariant_bySecond :
    bySecond.begin withinLeapSecond = .ok { current := withinLeapSecond } ∧
      (bySecond.outcome { current := withinLeapSecond } 1).isSome ∧
      (∃ m, bySecond.Orderly { current := withinLeapSecond } m) ∧
      bySecond.Divides withinLeapSecond { current := withinLeapSecond } := by
  have hbegin : bySecond.begin withinLeapSecond = .ok { current := withinLeapSecond } := rfl
  obtain ⟨horderly, hdivides⟩ := run_invariant hbegin
  exact ⟨hbegin, by decide, horderly, hdivides rfl rfl⟩

end Plan

/-- A range that is not inverted, or not to be divided, has the steps of its run. -/
theorem iterateRange_eq (context : Context) (start stop : Instant)
    (interval : Option Interval) (transform : Option Transform) :
    iterateRange context start stop interval transform =
      if interval.isSome ∧ stop < start then .error .invertedRange
      else { context, stop, interval, transform : Plan }.collect { current := start } := by
  rw [iterateRange, Plan.begin]
  split <;> rfl

/-- The iteration of a range breaks off where the calendar ends only. -/
theorem not_inRange_of_iterateRange {context : Context} {start stop i : Instant}
    {interval : Option Interval} {transform : Option Transform}
    (h : iterateRange context start stop interval transform = .error (.eval (.brokenOff i))) :
    ¬ (context.zone.civil i).InRange := by
  rw [iterateRange_eq] at h
  split at h
  · cases h
  · obtain ⟨m, -, hout⟩ := Plan.collect_eq_error_iff.1 h
    exact Plan.not_inRange_of_next hout

/-! ## The end of a run -/

/-- Where the steps end: at the end of the last of them, or where the range starts. -/
def lastStop (start : Instant) (steps : List Step) : Instant :=
  (steps.getLast?.map Step.stop).getD start

namespace Plan

variable {plan : Plan} {p : Progress} {interval : Interval} {step : Step} {k : Nat}
  (hinterval : plan.interval = some interval)
include hinterval

/-- What a call does that yields a step: the run goes on from one interval later, or comes to the
end of the range. -/
theorem advance_of_outcome (h : plan.outcome p k = some (.ok step)) :
    (plan.after p k).current < plan.stop ∧
      ∃ reached, plan.advance interval (plan.after p k).current = .ok reached ∧
        (plan.after p (k + 1)).current = reached.earlier plan.stop := by
  obtain ⟨stop, hpiece, -, hq⟩ := next_eq_ok_iff.1 (next_of_outcome h)
  obtain ⟨-, hlt, -, ⟨reached, hreached, hstop⟩, -, -⟩ := (piece?_eq_ok_iff hinterval).1 hpiece
  refine ⟨hlt, reached, hreached, ?_⟩
  rw [hq, hstop]

/-- A run that yields steps is not over. -/
theorem not_done_after (hdone : p.done = false)
    (h : ∀ j < k, ∃ s, plan.outcome p j = some (.ok s)) : (plan.after p k).done = false := by
  cases k with
  | zero => exact hdone
  | succ k =>
      obtain ⟨s, hs⟩ := h k (Nat.lt_succ_self k)
      obtain ⟨stop, -, -, hq⟩ := next_eq_ok_iff.1 (next_of_outcome hs)
      rw [hq, hinterval]
      rfl

/-- A run comes to the end of its steps. -/
theorem current_after_length (htransform : plan.transform = none) {steps : List Step}
    (h : ∀ k (hk : k < steps.length), plan.outcome p k = some (.ok steps[k])) :
    (plan.after p steps.length).current = lastStop p.current steps := by
  rw [lastStop, List.getLast?_eq_getElem?]
  cases hlength : steps.length with
  | zero => simp [List.getElem?_eq_none (Nat.le_of_eq hlength)]
  | succ n =>
      have hlast := step_of_outcome hinterval htransform (h n (by omega))
      rw [Nat.add_sub_cancel, List.getElem?_eq_getElem (by omega), ← hlast.2.1]
      rfl

/-- A run that comes to its end leaves less than a second of the range, if its next step is not
shorter than that. -/
theorem rest_lt_of_outcome (hdone : p.done = false)
    (hsteps : ∀ j < k, ∃ s, plan.outcome p j = some (.ok s)) (h : plan.outcome p k = none)
    (hlong : ∀ reached, plan.advance interval (plan.after p k).current = .ok reached →
      Span.second.nanos ≤ (plan.stop.since (plan.after p k).current).nanos →
        Span.second.nanos ≤ ((reached.earlier plan.stop).since (plan.after p k).current).nanos) :
    (plan.stop.since (plan.after p k).current).nanos < Span.second.nanos := by
  have hnot := not_done_after hinterval hdone hsteps
  rcases (piece?_eq_none_iff hinterval).1 (next_eq_none_iff.1 h) with
    hover | hle | ⟨reached, hreached, hspan⟩
  · rw [hnot] at hover
    cases hover
  · refine Int.not_le.1 fun hspan => ?_
    exact Instant.not_le.2 (Instant.lt_of_second_le_since hspan) hle
  · rw [← Int.not_le] at hspan ⊢
    exact mt (hlong reached hreached) hspan

end Plan

end Almanac
