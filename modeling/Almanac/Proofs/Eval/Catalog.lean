import Almanac.Proofs.Eval.Range
import Almanac.Proofs.Eval.Substitution
import Almanac.Proofs.Expr.Printing

/-!
# The operations that are read

Three lists say which operations there are: the keywords, the beginnings of words that are read as
the end of a period, and the boundaries of the calendar.  They agree but for two keywords,
`startof` and `endof` with no unit after them.  These are read as operations, and there are no
such operations.

Main definitions:

- `Operation.LacksUnit`: the two operations that are read and do not exist.
- `Expr.IsAtom`, `Expr.IsUnpiped`: what is read before any operation.

Main results:

- Theorem `mem_boundaries_of_isBoundaryKeyword`: where the three lists agree.
- Theorem `IsOperation.isKnown_or_lacksUnit`: the operations that are read.
- Theorem `evaluate_eq_unknownOperation_iff`: what is read fails by an unknown operation exactly if
  it comes to one that lacks its unit.
-/

namespace Almanac

/-! ## Operations -/

/-- The end of a period, without the unit. -/
def Operation.LacksUnit (o : Operation) : Prop :=
  (o.op = "startof" ∨ o.op = "endof") ∧ o.value = ""

/-- Where the lists agree: a keyword that is read as the end of a period is a boundary, if it has
a unit. -/
theorem mem_boundaries_of_isBoundaryKeyword : ∀ k ∈ keywords, isBoundaryKeyword k = true →
    k ∈ boundaries.map Prod.fst ∨ k = "startof" ∨ k = "endof" := by
  decide +kernel

/-- No boundary is known by its bare prefix. -/
theorem Operation.LacksUnit.not_isKnown {o : Operation} (h : o.LacksUnit) : ¬ o.IsKnown := by
  have hnames : "startof" ∉ names ∧ "endof" ∉ names := by decide +kernel
  rw [IsKnown]
  rcases h.1 with hop | hop <;> rw [hop]
  · exact hnames.1
  · exact hnames.2

section Reading

variable {ws us vs follow : List Word} {o : Operation} {ops : List Operation} {e : Expr}

/-- The keywords that the tokenizer knows are operations, but for the two bare prefixes. -/
theorem IsKeywordOperation.isKnown_or_lacksUnit (hws : ∀ w ∈ ws, w.IsValid)
    (h : IsKeywordOperation ws follow o) : o.IsKnown ∨ o.LacksUnit := by
  have hargument {k : Word} (hk : k.TakesArgument) (value : String) :
      Operation.IsKnown ⟨k.text, value⟩ := by
    have hmem := hk.2
    simp only [List.mem_cons, List.not_mem_nil, or_false] at hmem
    simp only [Operation.isKnown_iff]
    tauto
  cases h with
  | withArgument hk ha => exact .inl (hargument hk _)
  | bare hk hfollow => exact .inl (hargument hk _)
  | @boundary k _ hk =>
      have hkeyword := (hws k (List.mem_cons_self ..)).keyword hk.1
      have hboundary := isBoundaryKeyword_iff.2 hk.2
      rcases mem_boundaries_of_isBoundaryKeyword _ hkeyword hboundary with hmem | hbare
      · exact .inl (List.mem_append_right _ hmem)
      · exact .inr ⟨hbare, rfl⟩

/-- An operation that is read exists, unless it lacks its unit. -/
theorem IsOperation.isKnown_or_lacksUnit (hws : ∀ w ∈ ws, w.IsValid)
    (h : IsOperation ws follow o) : o.IsKnown ∨ o.LacksUnit := by
  rcases h.signed_or_keyword hws with ⟨sign, q, rfl | rfl, -, -, rfl⟩ | h
  · exact .inl (Operation.isKnown_iff.2 (.inl rfl))
  · exact .inl (Operation.isKnown_iff.2 (.inr (.inl rfl)))
  · exact h.isKnown_or_lacksUnit hws

/-- The operations of a run are known or lack their unit. -/
theorem IsRun.isKnown_or_lacksUnit (hws : ∀ w ∈ ws, w.IsValid) (h : IsRun ws follow ops) :
    ∀ o ∈ ops, o.IsKnown ∨ o.LacksUnit := by
  induction h with
  | nil => nofun
  | cons hop hops ih =>
      rw [List.forall_mem_append] at hws
      rw [List.forall_mem_cons]
      exact ⟨hop.isKnown_or_lacksUnit hws.1, ih hws.2⟩

/-- So are those that have a pipe before them. -/
theorem IsPipeline.isKnown_or_lacksUnit (hws : ∀ w ∈ ws, w.IsValid) (h : IsPipeline ws ops) :
    ∀ o ∈ ops, o.IsKnown ∨ o.LacksUnit := by
  induction h with
  | nil => nofun
  | cons hpipe hop hops hmore ih =>
      rw [List.forall_mem_cons, List.forall_mem_append, List.forall_mem_append] at hws
      obtain ⟨-, ⟨hfirst, hrun⟩, hrest⟩ := hws
      rw [List.forall_mem_append, List.forall_mem_cons]
      exact ⟨⟨hop.isKnown_or_lacksUnit hfirst, hops.isKnown_or_lacksUnit hrun⟩, ih hrest⟩

end Reading

/-! ## What comes before the operations -/

namespace Expr

/-- A date, a variable or an operation in their place. -/
inductive IsAtom : Expr → Prop
  | date (text : String) : IsAtom (.date text)
  | var (name : String) : IsAtom (.var name)
  | operation (o : Operation) : IsAtom (.operation o)

/-- What is read before any operation on it. -/
inductive IsUnpiped : Expr → Prop
  | atom {e : Expr} (h : e.IsAtom) : IsUnpiped e
  | range {start stop : Expr} (hstart : start.IsAtom) (hstop : stop.IsAtom) :
      IsUnpiped (.range start stop)

/-- With one operation there is a pipe. -/
theorem piped_append_cons (base : Expr) (front rest : List Operation) (o : Operation) :
    base.piped (front ++ o :: rest) = .pipe base (front ++ o :: rest) := by
  cases front <;> rfl

/-- Operations on what has none are all operations of the whole. -/
theorem IsUnpiped.piped_eq_pipe {base other : Expr} {ops more : List Operation}
    (h : base.IsUnpiped) (heq : base.piped ops = .pipe other more) : base = other ∧ ops = more := by
  cases ops with
  | nil =>
      rw [piped] at heq
      subst heq
      cases h with
      | atom h => cases h
  | cons o ops =>
      cases heq
      exact ⟨rfl, rfl⟩

end Expr

/-- What stands in the place of a date has no operations on it. -/
theorem IsPrimary.isAtom {ws follow : List Word} {e : Expr} (h : IsPrimary ws follow e) :
    e.IsAtom := by
  cases h with
  | var => exact .var _
  | literal | day | shift => exact .date _
  | operation => exact .operation _

/-- Neither has a range or one side of it. -/
theorem IsBase.isUnpiped {ws follow : List Word} {e : Expr} (h : IsBase ws follow e) :
    e.IsUnpiped := by
  cases h with
  | single h => exact .atom h.isAtom
  | range hstart hdots hstop => exact .range hstart.isAtom hstop.isAtom

/-- What is read is operations on what has none, and every one of them exists or lacks its unit. -/
theorem exists_piped_of_parse {source : String} {e : Expr} (h : parse source = .ok e) :
    ∃ (base : Expr) (ops : List Operation), e = base.piped ops ∧ base.IsUnpiped ∧
      ∀ o ∈ ops, o.IsKnown ∨ o.LacksUnit := by
  obtain ⟨ws, hws, hexpr⟩ := exists_words_of_parse h
  obtain ⟨_, _, _, base, ops, more, rfl, he, hbase, hops, hmore⟩ := hexpr.exists_piped
  rw [List.forall_mem_append, List.forall_mem_append] at hws
  obtain ⟨⟨-, hrun⟩, hrest⟩ := hws
  refine ⟨base, ops ++ more, he, hbase.isUnpiped, ?_⟩
  rw [List.forall_mem_append]
  exact ⟨hops.isKnown_or_lacksUnit hrun, hmore.isKnown_or_lacksUnit hrest⟩

/-! ## Values -/

/-- An error that is not that an operation is unknown. -/
def EvalError.NotUnknown (e : EvalError) : Prop :=
  ∀ op, e ≠ .unknownOperation op

section Values

variable (ctx : Context) {e base : Expr} {op : String} {ops : List Operation}

/-- No value without operations fails by an unknown operation. -/
theorem Expr.IsAtom.failsBy_evaluate (h : e.IsAtom) :
    FailsBy EvalError.NotUnknown (evaluate ctx e) := by
  cases h with
  | date text =>
      refine (failsBy_dateValue ctx text).mono ?_
      rintro _ hargument op rfl
      exact hargument
  | var name =>
      rw [evaluate]
      cases ctx.value? name with
      | some i => exact .ok i
      | none => exact .error fun op h => by cases h
  | operation o => exact .error fun op h => by cases h

/-- Neither does a range, which has no single value. -/
theorem Expr.IsUnpiped.failsBy_evaluate (h : e.IsUnpiped) :
    FailsBy EvalError.NotUnknown (evaluate ctx e) := by
  cases h with
  | atom h => exact h.failsBy_evaluate ctx
  | range => exact .error nofun

/-- The two ends of a range do not fail by an unknown operation. -/
theorem Expr.IsUnpiped.failsBy_evaluateRange (h : e.IsUnpiped) :
    FailsBy EvalError.NotUnknown (evaluateRange ctx e) := by
  cases h with
  | atom h => cases h <;> exact .error nofun
  | range hstart hstop =>
      exact .bind (hstart.failsBy_evaluate ctx) fun _ =>
        .bind (hstop.failsBy_evaluate ctx) fun _ => .ok _

theorem map_eq_error_iff {α β : Type} {r : Except EvalError α} {f : α → β} {error : EvalError} :
    r.map f = .error error ↔ r = .error error := by
  cases r <;> simp [Except.map]

theorem exists_map_eq_ok_iff {α β : Type} {r : Except EvalError α} {f : α → β} {q : β → Prop} :
    (∃ b, r.map f = .ok b ∧ q b) ↔ ∃ a, r = .ok a ∧ q (f a) := by
  cases r <;> simp [Except.map]

/-- Operations that start from one part of a value make it fail by an unknown operation exactly if
they reach one, and the value is there up to it and shows a civil time that the calendar covers. -/
theorem bind_applyAll_eq_unknownOperation_iff {α β : Type} {r : Except EvalError α}
    (hr : FailsBy EvalError.NotUnknown r) (last : α → Instant) (result : α → Instant → β)
    (reached : β → Instant) (hreached : ∀ a j, reached (result a j) = j) :
    (r >>= fun a => (Operation.applyAll ctx.weekStart ctx.zone (last a) ops).map (result a)) =
        .error (.unknownOperation op) ↔
      ∃ front o rest, ops = front ++ o :: rest ∧ ¬ o.IsKnown ∧ op = o.op ∧
        ∃ b, (r >>= fun a =>
          (Operation.applyAll ctx.weekStart ctx.zone (last a) front).map (result a)) = .ok b ∧
            (ctx.zone.civil (reached b)).InRange := by
  cases r with
  | error e =>
      constructor
      · intro h
        exact absurd (Except.error.inj h) (hr e rfl op)
      · rintro ⟨front, o, rest, -, -, -, b, hb, -⟩
        cases hb
  | ok a =>
      have hbind (f : α → Except EvalError β) : (.ok a >>= f) = f a := rfl
      simp only [hbind, map_eq_error_iff, exists_map_eq_ok_iff, hreached,
        Operation.applyAll_eq_unknownOperation_iff]

/-- Operations fail by an unknown one exactly where those before it have a value on the calendar.
-/
theorem evaluate_piped_eq_unknownOperation_iff (hbase : base.IsUnpiped) :
    evaluate ctx (base.piped ops) = .error (.unknownOperation op) ↔
      ∃ front o rest, ops = front ++ o :: rest ∧ ¬ o.IsKnown ∧ op = o.op ∧
        ∃ i, evaluate ctx (base.piped front) = .ok i ∧ (ctx.zone.civil i).InRange := by
  have hmap (os : List Operation) : evaluate ctx (base.piped os) =
      evaluate ctx base >>= fun i =>
        (Operation.applyAll ctx.weekStart ctx.zone i os).map fun j => j := by
    rw [evaluate_piped]
    congr
    funext i
    cases Operation.applyAll ctx.weekStart ctx.zone i os <;> rfl
  simp only [hmap]
  exact bind_applyAll_eq_unknownOperation_iff ctx (hbase.failsBy_evaluate ctx) (fun i => i)
    (fun _ j => j) (fun j => j) fun _ _ => rfl

/-- The operations on a range are operations on its end. -/
theorem evaluateRange_piped (h : base.isRange = true) (ops : List Operation) :
    evaluateRange ctx (base.piped ops) =
      evaluateRange ctx base >>= fun ends =>
        (Operation.applyAll ctx.weekStart ctx.zone ends.2 ops).map fun j => (ends.1, j) := by
  cases ops with
  | nil =>
      rw [Expr.piped]
      cases evaluateRange ctx base <;> rfl
  | cons o ops =>
      rw [Expr.piped, evaluateRange, if_pos h]
      rfl

/-- On a range, the operations work on its second end. -/
theorem evaluateRange_piped_eq_unknownOperation_iff (hbase : base.IsUnpiped) :
    evaluateRange ctx (base.piped ops) = .error (.unknownOperation op) ↔
      ∃ front o rest, ops = front ++ o :: rest ∧ ¬ o.IsKnown ∧ op = o.op ∧
        ∃ ends, evaluateRange ctx (base.piped front) = .ok ends ∧
          (ctx.zone.civil ends.2).InRange := by
  cases hrange : base.isRange with
  | true =>
      simp only [evaluateRange_piped ctx hrange]
      exact bind_applyAll_eq_unknownOperation_iff ctx (hbase.failsBy_evaluateRange ctx)
        Prod.snd (fun ends j => (ends.1, j)) Prod.snd fun _ _ => rfl
  | false =>
      have hnone (os : List Operation) : evaluateRange ctx (base.piped os) = .error .notARange :=
        evaluateRange_of_isRange_eq_false ctx (by rw [Expr.isRange_piped, hrange])
      simp [hnone]

end Values

/-- What is read fails by an unknown operation exactly if it comes to one that lacks its unit: if
what stands before that has a value, as a date or as a range, and the calendar covers what the
clocks show there. -/
theorem evaluate_eq_unknownOperation_iff {source : String} {e : Expr} (h : parse source = .ok e)
    (ctx : Context) (op : String) :
    (evaluate ctx e = .error (.unknownOperation op) ↔
      ∃ base front o rest, e = .pipe base (front ++ o :: rest) ∧ o.LacksUnit ∧ op = o.op ∧
        ∃ i, evaluate ctx (base.piped front) = .ok i ∧ (ctx.zone.civil i).InRange) ∧
    (evaluateRange ctx e = .error (.unknownOperation op) ↔
      ∃ base front o rest, e = .pipe base (front ++ o :: rest) ∧ o.LacksUnit ∧ op = o.op ∧
        ∃ ends, evaluateRange ctx (base.piped front) = .ok ends ∧
          (ctx.zone.civil ends.2).InRange) := by
  obtain ⟨base, ops, rfl, hbase, hops⟩ := exists_piped_of_parse h
  have hiff (HasValue : Expr → Prop) :
      (∃ front o rest, ops = front ++ o :: rest ∧ ¬ o.IsKnown ∧ op = o.op ∧
          HasValue (base.piped front)) ↔
        ∃ other front o rest, base.piped ops = .pipe other (front ++ o :: rest) ∧ o.LacksUnit ∧
          op = o.op ∧ HasValue (other.piped front) := by
    constructor
    · rintro ⟨front, o, rest, rfl, hknown, hop, hvalue⟩
      have hlacks := (hops o (by simp)).resolve_left hknown
      exact ⟨base, front, o, rest, base.piped_append_cons front rest o, hlacks, hop, hvalue⟩
    · rintro ⟨other, front, o, rest, heq, hlacks, hop, hvalue⟩
      obtain ⟨rfl, rfl⟩ := hbase.piped_eq_pipe heq
      exact ⟨front, o, rest, rfl, hlacks.not_isKnown, hop, hvalue⟩
  rw [evaluate_piped_eq_unknownOperation_iff ctx hbase,
    evaluateRange_piped_eq_unknownOperation_iff ctx hbase]
  exact ⟨hiff fun e => ∃ i, evaluate ctx e = .ok i ∧ (ctx.zone.civil i).InRange,
    hiff fun e => ∃ ends, evaluateRange ctx e = .ok ends ∧ (ctx.zone.civil ends.2).InRange⟩

/-- A range that is moved on by a day and then comes to an operation that lacks its unit. -/
theorem evaluateRange_endof :
    parse "2024-01-01...2024-01-02 | +1d endof" =
        .ok (.pipe (.range (.date "2024-01-01") (.date "2024-01-02"))
          [⟨"+", "1d"⟩, ⟨"endof", ""⟩]) ∧
      evaluateRange { now := .epoch, zone := .zero }
          (.pipe (.range (.date "2024-01-01") (.date "2024-01-02"))
            [⟨"+", "1d"⟩, ⟨"endof", ""⟩]) =
        .error (.unknownOperation "endof") := by
  have hparse : parse "2024-01-01...2024-01-02 | +1d endof" =
      .ok (.pipe (.range (.date "2024-01-01") (.date "2024-01-02"))
        [⟨"+", "1d"⟩, ⟨"endof", ""⟩]) := by decide +kernel
  have hvalue : evaluateRange { now := .epoch, zone := .zero }
      ((Expr.range (.date "2024-01-01") (.date "2024-01-02")).piped [⟨"+", "1d"⟩]) =
        .ok (.ofSeconds 1704067200, .ofSeconds 1704240000) := by decide +kernel
  refine ⟨hparse, (evaluate_eq_unknownOperation_iff hparse _ _).2.2 ?_⟩
  exact ⟨_, [⟨"+", "1d"⟩], ⟨"endof", ""⟩, [], rfl, ⟨.inr rfl, rfl⟩, rfl, _, hvalue, by decide +kernel⟩

/-- Not every operation that is read is one that there is. -/
theorem evaluate_startof :
    parse "today startof" = .ok (.pipe (.date "today") [⟨"startof", ""⟩]) ∧
      evaluate { now := .epoch, zone := .zero } (.pipe (.date "today") [⟨"startof", ""⟩]) =
        .error (.unknownOperation "startof") := by
  decide +kernel

end Almanac
