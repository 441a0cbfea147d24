import Almanac.Proofs.Iteration.Run

/-!
# Reshaped runs

A transform gives the steps of a run two other ends.  It never changes where the run
goes: as long as the transform has a value, the iteration with it and the iteration
without it make the same progress, and where it has none for the first time, that is
the error which ends the run.

Main definitions:

- `Plan.reshaped`: a plan with a transform.
- `Transform.reshape`: what a transform makes of a step.

Main results:

- Theorem `Plan.next_reshaped`: one call with a transform, in terms of the call without.
- Theorem `Plan.after_reshaped`: both runs make the same progress.
- Theorem `Plan.collect_reshaped`: all steps, or the first error of either kind.
- Theorem `reshaped_run`: the two runs compared, call by call and as a whole.
-/

namespace Almanac

/-- What a transform makes of a step. -/
def Transform.reshape (context : Context) (t : Transform) (s : Step) : Except EvalError Step :=
  (evaluateTransform context t s.start s.stop s.index).map fun (start, stop) =>
    { index := s.index, start, stop }

namespace Plan

variable {plan : Plan} {p q : Progress} {t : Transform} {step : Step}

/-- A plan with a transform. -/
def reshaped (plan : Plan) (t : Transform) : Plan :=
  { plan with transform := some t }

/-- Whether a transform has a value for each of the first `k` steps of a run. -/
def Reshapes (plan : Plan) (t : Transform) (p : Progress) (k : Nat) : Prop :=
  ∀ j < k, ∀ s, plan.outcome p j = some (.ok s) →
    ∃ ends, evaluateTransform plan.context t s.start s.stop j = .ok ends

/-! ## One call -/

/-- A transform does not change which piece is next. -/
theorem piece?_reshaped (plan : Plan) (t : Transform) (p : Progress) :
    (plan.reshaped t).piece? p = plan.piece? p :=
  rfl

/-- A transform does not change how a run begins. -/
theorem begin_reshaped (plan : Plan) (t : Transform) (start : Instant) :
    (plan.reshaped t).begin start = plan.begin start :=
  rfl

/-- What is reported of a piece is what the transform makes of it. -/
theorem report_reshaped (plan : Plan) (t : Transform) (index : Nat) (start stop : Instant) :
    (plan.reshaped t).report index start stop =
      t.reshape plan.context { index, start, stop } := by
  simp only [report, reshaped, Transform.reshape]
  cases evaluateTransform plan.context t start stop index <;> rfl

/-- A call with a transform yields what the transform makes of the step that the call
without it yields, and goes on from the same place. -/
theorem next_reshaped (hplain : plan.transform = none) (t : Transform) (p : Progress) :
    (plan.reshaped t).next p =
      match plan.next p with
      | (some (.ok s), q) =>
        match t.reshape plan.context s with
        | .ok s' => (some (.ok s'), q)
        | .error e => (some (.error (.eval e)), { q with done := true })
      | outcome => outcome := by
  have hreport (start stop : Instant) :
      plan.report p.index start stop = .ok { index := p.index, start, stop } := by
    rw [report, hplain]
  simp only [next, piece?_reshaped, report_reshaped, hreport]
  cases plan.piece? p with
  | none => rfl
  | some piece =>
      cases piece with
      | error e => rfl
      | ok ends =>
          simp only
          cases t.reshape plan.context { index := p.index, start := ends.1, stop := ends.2 } <;>
            rfl

/-! ## Both runs side by side -/

/-- Steps before the first failure of the transform can be reshaped. -/
theorem exists_reshape_of_reshapes {j k : Nat} (hindex : p.index = 0)
    (h : plan.Reshapes t p k) (hlt : j < k) (hout : plan.outcome p j = some (.ok step)) :
    ∃ s, t.reshape plan.context step = .ok s := by
  obtain ⟨ends, hends⟩ := h j hlt step hout
  have hj : step.index = j := by
    rw [index_of_outcome hout, hindex, Nat.zero_add]
  exact ⟨_, by rw [Transform.reshape, hj, hends]; rfl⟩

/-- While the transform has values, the run with it makes the same progress as the run
without it. -/
theorem after_reshaped (hplain : plan.transform = none) (hindex : p.index = 0) {k : Nat}
    (h : plan.Reshapes t p k) : (plan.reshaped t).after p k = plan.after p k := by
  induction k with
  | zero => rfl
  | succ k ih =>
      have hbefore : plan.Reshapes t p k := fun j hj => h j (Nat.lt_succ_of_lt hj)
      rw [after_succ, after_succ, ih hbefore, next_reshaped hplain]
      cases hnext : plan.next (plan.after p k) with
      | mk result q =>
          cases result with
          | none => rfl
          | some result =>
              cases result with
              | error e => rfl
              | ok s =>
                  have hout : plan.outcome p k = some (.ok s) := congrArg Prod.fst hnext
                  obtain ⟨s', hs'⟩ :=
                    exists_reshape_of_reshapes hindex h (Nat.lt_succ_self k) hout
                  simp [hs']

/-- While the transform has values, a call with it yields what it makes of the outcome of
the call without it. -/
theorem outcome_reshaped (hplain : plan.transform = none) (hindex : p.index = 0) {k : Nat}
    (h : plan.Reshapes t p k) :
    (plan.reshaped t).outcome p k =
      match plan.outcome p k with
      | some (.ok s) => some ((t.reshape plan.context s).mapError .eval)
      | outcome => outcome := by
  rw [outcome, after_reshaped hplain hindex h, next_reshaped hplain, outcome]
  cases plan.next (plan.after p k) with
  | mk result q =>
      cases result with
      | none => rfl
      | some result =>
          cases result with
          | error e => rfl
          | ok s =>
              simp only
              cases t.reshape plan.context s <;> rfl

section Outcomes

variable {k : Nat}

/-- A step of the run with a transform, from that of the run without. -/
theorem outcome_reshaped_of_ok (hplain : plan.transform = none) (hindex : p.index = 0)
    (h : plan.Reshapes t p k) (hout : plan.outcome p k = some (.ok step))
    {start stop : Instant}
    (hends : evaluateTransform plan.context t step.start step.stop k = .ok (start, stop)) :
    (plan.reshaped t).outcome p k = some (.ok { index := k, start, stop }) := by
  have hk : step.index = k := by
    rw [index_of_outcome hout, hindex, Nat.zero_add]
  rw [outcome_reshaped hplain hindex h, hout]
  simp only [Transform.reshape, hk, hends]
  rfl

/-- The first step for which a transform has no value ends the run. -/
theorem outcome_reshaped_of_error (hplain : plan.transform = none) (hindex : p.index = 0)
    (h : plan.Reshapes t p k) (hout : plan.outcome p k = some (.ok step)) {e : EvalError}
    (hends : evaluateTransform plan.context t step.start step.stop k = .error e) :
    (plan.reshaped t).outcome p k = some (.error (.eval e)) ∧
      ∀ j, k < j → (plan.reshaped t).outcome p j = none := by
  have hk : step.index = k := by
    rw [index_of_outcome hout, hindex, Nat.zero_add]
  have herror : (plan.reshaped t).outcome p k = some (.error (.eval e)) := by
    rw [outcome_reshaped hplain hindex h, hout]
    simp only [Transform.reshape, hk, hends]
    rfl
  exact ⟨herror, fun j hj => outcome_eq_none_of_lt (by simp [herror]) hj⟩

/-- Where the run without a transform yields no step, both yield the same. -/
theorem outcome_reshaped_of_not_step (hplain : plan.transform = none) (hindex : p.index = 0)
    (h : plan.Reshapes t p k) (hout : ∀ s, plan.outcome p k ≠ some (.ok s)) :
    (plan.reshaped t).outcome p k = plan.outcome p k := by
  rw [outcome_reshaped hplain hindex h]
  split
  · rename_i s hs
    exact absurd hs (hout s)
  · rfl

end Outcomes

/-! ## The whole run -/

/-- With a transform a range has the steps that the transform makes of those emitted
without it, unless it has no value for one of them or the run ends with an error. -/
theorem collect_reshaped (hplain : plan.transform = none) (t : Transform) (p : Progress) :
    (plan.reshaped t).collect p =
      match (plan.emitted p).mapM (t.reshape plan.context) with
      | .ok steps => (plan.collect p).map fun _ => steps
      | .error e => .error (.eval e) := by
  generalize hsteps : plan.emitted p = steps
  induction steps generalizing p with
  | nil =>
      rw [emitted_eq_nil_iff] at hsteps
      have hnext := next_reshaped hplain t p
      cases hout : plan.next p with
      | mk result q =>
          rw [hout] at hnext hsteps
          cases result with
          | none =>
              rw [collect_of_none (congrArg Prod.fst hnext),
                collect_of_none (congrArg Prod.fst hout)]
              rfl
          | some result =>
              cases result with
              | error e =>
                  rw [collect_of_error (congrArg Prod.fst hnext),
                    collect_of_error (congrArg Prod.fst hout)]
                  rfl
              | ok s => exact absurd rfl (hsteps s)
  | cons first rest ih =>
      obtain ⟨hfirst, hrest⟩ := emitted_eq_cons_iff.1 hsteps
      have hout : plan.next p = (some (.ok first), (plan.next p).2) := by
        rw [← hfirst]
      have hnext := next_reshaped hplain t p
      rw [hout] at hnext
      rw [List.mapM_cons, collect_of_step hfirst]
      cases hreshape : t.reshape plan.context first with
      | error e =>
          simp only [hreshape] at hnext
          rw [collect_of_error (congrArg Prod.fst hnext)]
          rfl
      | ok s =>
          simp only [hreshape] at hnext
          rw [collect_of_step (congrArg Prod.fst hnext), congrArg Prod.snd hnext,
            ih (plan.next p).2 hrest]
          cases rest.mapM (t.reshape plan.context) with
          | error e => rfl
          | ok steps => cases plan.collect (plan.next p).2 <;> rfl

end Plan

/-! ## Ranges -/

/-- A transform never influences where the steps of a range lie.  As long as it has
values, each call yields what it makes of the step that the call without it yields; where
it has none for the first time, that is the error which ends the run; and where the run
without it yields no step, both yield the same.  So the steps of a range are those
without the transform, reshaped one after the other, or the first error of either kind. -/
theorem reshaped_run (context : Context) (start stop : Instant) (interval : Option Interval)
    (t : Transform) :
    let plain : Plan := { context, stop, interval, transform := none }
    (plain.reshaped t).begin start = plain.begin start ∧
    (∀ p, plain.begin start = .ok p → ∀ k, plain.Reshapes t p k →
      (∀ s, plain.outcome p k = some (.ok s) →
        (∀ newStart newStop,
          evaluateTransform context t s.start s.stop k = .ok (newStart, newStop) →
            (plain.reshaped t).outcome p k =
              some (.ok { index := k, start := newStart, stop := newStop })) ∧
        (∀ e, evaluateTransform context t s.start s.stop k = .error e →
          (plain.reshaped t).outcome p k = some (.error (.eval e)) ∧
            ∀ j, k < j → (plain.reshaped t).outcome p j = none)) ∧
      ((∀ s, plain.outcome p k ≠ some (.ok s)) →
        (plain.reshaped t).outcome p k = plain.outcome p k)) ∧
    (∀ steps, iterateRange context start stop interval none = .ok steps →
      iterateRange context start stop interval (some t) =
        (steps.mapM (t.reshape context)).mapError .eval) ∧
    (∀ e, iterateRange context start stop interval none = .error e →
      iterateRange context start stop interval (some t) =
        match (plain.emitted { current := start }).mapM (t.reshape context) with
        | .ok _ => .error e
        | .error e => .error (.eval e)) := by
  intro plain
  have hcollect := @Plan.collect_reshaped plain rfl t { current := start }
  refine ⟨plain.begin_reshaped t start, ?_, ?_, ?_⟩
  · intro p hbegin k hreshapes
    have hindex : p.index = 0 := by
      rw [Plan.eq_of_begin hbegin]
    refine ⟨?_, Plan.outcome_reshaped_of_not_step rfl hindex hreshapes⟩
    intro s hs
    exact ⟨fun _ _ => Plan.outcome_reshaped_of_ok rfl hindex hreshapes hs,
      fun _ => Plan.outcome_reshaped_of_error rfl hindex hreshapes hs⟩
  · intro steps hsteps
    rw [iterateRange_eq] at hsteps ⊢
    split at hsteps <;> rename_i hinverted
    · cases hsteps
    · rw [if_neg hinverted]
      refine hcollect.trans ?_
      rw [Plan.emitted_of_collect hsteps, hsteps]
      cases steps.mapM (t.reshape context) <;> rfl
  · intro e he
    rw [iterateRange_eq] at he ⊢
    split at he <;> rename_i hinverted
    · rw [if_pos hinverted, ← he]
      obtain ⟨i, rfl⟩ := Option.isSome_iff_exists.1 hinverted.1
      have hinterval : plain.interval = some i := rfl
      rw [Plan.emitted_eq_nil_of_le hinterval (Instant.le_of_lt hinverted.2)]
      rfl
    · rw [if_neg hinverted]
      refine hcollect.trans ?_
      rw [he]
      cases (plain.emitted { current := start }).mapM (t.reshape context) <;> rfl

/-- A transform that exchanges the two ends of a step. -/
def Transform.swap : Transform :=
  ⟨.var "$end", .var "$begin"⟩

/-- A transform to a variable that has no value. -/
def Transform.unbound : Transform :=
  ⟨.var "$begin", .var "$missing"⟩

/-- A quarter of a second after a minute past noon. -/
def afterLeapSecond : Instant :=
  ⟨{ seconds := 43260, nanos := 250000000 }, by decide⟩

/-- A second and a quarter after a minute past noon. -/
def pastLeapSecond : Instant :=
  ⟨{ seconds := 43261, nanos := 250000000 }, by decide⟩

/-- The progress of an iteration that is to start within the leap second. -/
def fromLeapSecond : Progress :=
  { current := Plan.withinLeapSecond }

/-- The first step from within the leap second. -/
theorem outcome_bySecond :
    Plan.bySecond.outcome fromLeapSecond 0 =
      some (.ok { index := 0, start := Plan.withinLeapSecond, stop := afterLeapSecond }) := by
  rfl

/-- The steps from within the leap second, without a transform. -/
theorem iterateRange_bySecond :
    iterateRange Plan.bySecond.context Plan.withinLeapSecond Plan.bySecond.stop
      Plan.bySecond.interval none =
        .ok [{ index := 0, start := Plan.withinLeapSecond, stop := afterLeapSecond },
          { index := 1, start := afterLeapSecond, stop := pastLeapSecond }] := by
  rw [iterateRange_eq, if_neg (by decide), Plan.collect_eq_ok_iff]
  refine ⟨?_, rfl⟩
  intro k hk
  match k, hk with
  | 0, _ => rfl
  | 1, _ => rfl

/-- With the ends of each step swapped, the first one runs backwards. -/
theorem reshaped_run_bySecond :
    (Plan.bySecond.reshaped .swap).outcome fromLeapSecond 0 =
      some (.ok { index := 0, start := afterLeapSecond, stop := Plan.withinLeapSecond }) ∧
    (Plan.bySecond.reshaped .unbound).outcome fromLeapSecond 0 =
      some (.error (.eval (.missingVariable "$missing"))) ∧
    (Plan.bySecond.reshaped .unbound).outcome fromLeapSecond 1 = none ∧
    iterateRange Plan.bySecond.context Plan.withinLeapSecond Plan.bySecond.stop
      Plan.bySecond.interval (some .swap) =
        .ok [{ index := 0, start := afterLeapSecond, stop := Plan.withinLeapSecond },
          { index := 1, start := pastLeapSecond, stop := afterLeapSecond }] := by
  obtain ⟨-, hswap, hrange, -⟩ := reshaped_run Plan.bySecond.context Plan.withinLeapSecond
    Plan.bySecond.stop Plan.bySecond.interval .swap
  obtain ⟨-, hunbound, -, -⟩ := reshaped_run Plan.bySecond.context Plan.withinLeapSecond
    Plan.bySecond.stop Plan.bySecond.interval .unbound
  have hnothing (t : Transform) : Plan.bySecond.Reshapes t fromLeapSecond 0 :=
    fun j hj => absurd hj (Nat.not_lt_zero j)
  obtain ⟨hshown, -⟩ := (hswap fromLeapSecond rfl 0 (hnothing _)).1 _ outcome_bySecond
  obtain ⟨-, hfailed⟩ := (hunbound fromLeapSecond rfl 0 (hnothing _)).1 _ outcome_bySecond
  obtain ⟨herror, hover⟩ := hfailed _ rfl
  exact ⟨hshown _ _ rfl, herror, hover 1 (by decide), hrange _ iterateRange_bySecond⟩

end Almanac
