import Almanac.Proofs.Expr.Piping

/-!
# Where the parser gives up

The parser reads its tokens once, from left to right, and never takes a decision back.  So the
token that it blames is the first one with which no expression goes on: what stands before it is
the beginning of an expression, and with it this is so no more.

A reader that gives back a value has seen one token after it at most (`Predictive`).  Where a
reader fails, its tokens have a front that one number more would complete at most, and a rest
whose first token the reader never takes there (`BreaksOff`).  Both are kept where one reader goes
on after another, if the second accepts that nothing is left.

Main definitions:

- `IsViable`: tokens that some expression begins with.
- `ParseError.PointsInto`: what an error says about the tokens it is for.
- `Predictive`, `FailsAtOnce`: what a reader has seen of its tokens, in success and in failure.

Main results:

- Theorems `Predictive.andThen`, `FailsAtOnce.andThen`: one reader after another.
- Theorems `failsAtOnce_primary`, `failsAtOnce_operations`, `failsAtOnce_read`: so it is with the
  readers of expressions.
- Theorem `pointsInto_of_parseTokens`: every error of the parser points at the first token with
  which no expression goes on.
-/

namespace Almanac

variable {ts us front rest before after : List Token} {t : Token} {e : ParseError}

/-! ## Errors and the tokens they are for -/

/-- Tokens that some expression begins with. -/
def IsViable (ts : List Token) : Prop :=
  ∃ more e, parseTokens (ts ++ more) = .ok e

/-- An error of the parser names the first of the tokens with which no expression goes on.  A
sign is named in place of the token after it, and there is no such token where the tokens end too
early: then one token more makes them an expression. -/
def ParseError.PointsInto (ts : List Token) : ParseError → Prop
  | .unexpectedToken t | .unknownKeyword t | .trailingInput t =>
    ∃ before after, ts = before ++ t :: after ∧ IsViable before ∧ ¬ IsViable (before ++ [t])
  | .missingOperand sign =>
    ∃ before after, ts = before ++ sign :: after ∧ IsViable (before ++ [sign]) ∧
      ∀ next ∈ after.head?, ¬ IsViable (before ++ [sign, next])
  | .unexpectedEnd | .emptyExpression =>
    ∃ next e, next.kind ≠ .eof ∧ parseTokens (ts ++ [next]) = .ok e
  | _ => False

/-- An error names a token between what was read and the rest: the first token of the rest, or
the sign that was read last, or none if nothing is left. -/
def ParseError.Names (front rest : List Token) : ParseError → Prop
  | .unexpectedToken t | .unknownKeyword t | .trailingInput t => t ∈ rest.head?
  | .missingOperand sign => sign ∈ front.getLast?
  | .unexpectedEnd | .emptyExpression => rest = []
  | _ => False

/-- An error names the same token when more has been read before. -/
theorem ParseError.Names.append_left (h : e.Names front rest) (us : List Token) :
    e.Names (us ++ front) rest := by
  cases e with
  | missingOperand sign =>
      have hlast : front.getLast? = some sign := h
      simp [Names, List.getLast?_append, hlast]
  | lex | emptyExpression | unexpectedEnd | unexpectedToken | unknownKeyword | trailingInput
    | invalidTransform | transformPart => exact h

/-! ## Readers that look one token ahead -/

/-- Nothing, or tokens with the same first one. -/
def BeginsAs (us ts : List Token) : Prop :=
  ∀ t ∈ us.head?, t ∈ ts.head?

namespace BeginsAs

/-- No tokens begin as any others do. -/
theorem nil : BeginsAs [] ts :=
  fun _ ht => by cases ht

theorem cons : BeginsAs (t :: us) (t :: ts) :=
  fun _ ht => ht

/-- Behind the same tokens, the beginnings stay alike. -/
theorem append_left (h : BeginsAs us ts) (front : List Token) :
    BeginsAs (front ++ us) (front ++ ts) := by
  cases front with
  | nil => exact h
  | cons t front => exact cons

/-- Tokens begin as others do if they have their first one. -/
theorem of_mem (h : t ∈ ts.head?) : BeginsAs (t :: us) ts := by
  intro u hu
  obtain rfl := Option.some.inj hu
  exact h

/-- No keyword gets an argument from tokens that begin as others do. -/
theorem noNewArgument (h : BeginsAs us ts) : NoNewArgument (words ts) (words us) := by
  intro w hw _
  rw [words, List.head?_map, Option.mem_def, Option.map_eq_some_iff] at hw
  obtain ⟨t, ht, rfl⟩ := hw
  rw [words, List.head?_map, Option.mem_def, Option.map_eq_some_iff]
  exact ⟨t, h t ht, rfl⟩

end BeginsAs

/-! ## What readers have seen -/

namespace Parsed

variable {α β : Type}

/-- Two readers fail together if the first fails, or the second on what the first leaves. -/
theorem andThen_eq_error_iff {r : Parsed α} {next : α → List Token → Parsed β} :
    r.andThen next = (.error e, rest) ↔
      r = (.error e, rest) ∨ ∃ a mid, r = (.ok a, mid) ∧ next a mid = (.error e, rest) := by
  obtain ⟨outcome, mid⟩ := r
  cases outcome with
  | error e => simp [andThen]
  | ok a => simp [andThen]

/-- A change of the value leaves the failures as they are. -/
theorem map_eq_error_iff {r : Parsed α} {f : α → β} :
    r.map f = (.error e, rest) ↔ r = (.error e, rest) := by
  simp [map, andThen_eq_error_iff]

end Parsed

section Readers

variable {α β : Type} {reader reader' : List Token → Parsed α} {a : α}
  {next : α → List Token → Parsed β} {f : α → β}

/-- The value that a reader gives back rests on the tokens it takes up and on the first of those
it leaves, or on that there is none. -/
def Predictive (reader : List Token → Parsed α) : Prop :=
  ∀ ts a rest, reader ts = (.ok a, rest) → ∃ front, ts = front ++ rest ∧
    ∀ rest', BeginsAs rest' rest → reader (front ++ rest') = (.ok a, rest')

/-- A reader that takes up all tokens. -/
def Accepts (reader : List Token → Parsed α) (ts : List Token) : Prop :=
  ∃ a, reader ts = (.ok a, [])

/-- A reader that fails on all tokens with this beginning. -/
def Rejects (reader : List Token → Parsed α) (ts : List Token) : Prop :=
  ∀ more a rest, reader (ts ++ more) ≠ (.ok a, rest)

/-- A number that can stand for a date and for an operation, and that can follow a sign. -/
def oneDay : Token :=
  ⟨.unit, "1d", 0⟩

/-- Where a reader fails: the front that it accepts alone or with one number more, and the rest
whose first token does not go on with it. -/
structure BreaksOff (reader : List Token → Parsed α) (front rest : List Token) (e : ParseError) :
    Prop where
  names : e.Names front rest
  completes : Accepts reader front ∨ Accepts reader (front ++ [oneDay])
  hopeless : ∀ t ∈ rest.head?, Rejects reader (front ++ [t])

/-- Wherever a reader fails, it breaks off at a token that it cannot take. -/
def FailsAtOnce (reader : List Token → Parsed α) : Prop :=
  ∀ ts e us, reader ts = (.error e, us) →
    ∃ front rest, ts = front ++ rest ∧ BreaksOff reader front rest e

/-! ### One reader after another -/

/-- Two readers in turn look one token ahead if both of them do. -/
theorem Predictive.andThen (hreader : Predictive reader) (hnext : ∀ a, Predictive (next a)) :
    Predictive fun ts => (reader ts).andThen next := by
  intro ts b rest h
  obtain ⟨a, mid, ha, hb⟩ := Parsed.andThen_eq_ok_iff.1 h
  obtain ⟨first, rfl, hfirst⟩ := hreader _ _ _ ha
  obtain ⟨second, rfl, hsecond⟩ := hnext a _ _ _ hb
  refine ⟨first ++ second, by simp, ?_⟩
  intro rest' hrest'
  rw [List.append_assoc]
  exact Parsed.andThen_eq_ok_iff.2
    ⟨a, second ++ rest', hfirst _ (hrest'.append_left second), hsecond _ hrest'⟩

theorem Predictive.map (hreader : Predictive reader) (f : α → β) :
    Predictive fun ts => (reader ts).map f :=
  hreader.andThen fun a ts _ rest h => by
    cases h
    exact ⟨[], rfl, fun _ _ => rfl⟩

/-- Two readers accept what the first accepts, if the second accepts that nothing is left. -/
theorem Accepts.andThen (h : Accepts reader ts) (hnil : ∀ a, Accepts (next a) []) :
    Accepts (fun ts => (reader ts).andThen next) ts := by
  obtain ⟨a, ha⟩ := h
  obtain ⟨b, hb⟩ := hnil a
  exact ⟨b, Parsed.andThen_eq_ok_iff.2 ⟨a, [], ha, hb⟩⟩

/-- Two readers reject what the first rejects. -/
theorem Rejects.andThen (h : Rejects reader ts) (next : α → List Token → Parsed β) :
    Rejects (fun ts => (reader ts).andThen next) ts := by
  intro more b rest hb
  obtain ⟨a, mid, ha, -⟩ := Parsed.andThen_eq_ok_iff.1 hb
  exact h more a mid ha

/-- A failure of the first reader is one of both, if the second accepts that nothing is left. -/
theorem BreaksOff.andThen (h : BreaksOff reader front rest e) (hnil : ∀ a, Accepts (next a) []) :
    BreaksOff (fun ts => (reader ts).andThen next) front rest e where
  names := h.names
  completes := h.completes.imp (·.andThen hnil) (·.andThen hnil)
  hopeless := fun t ht => (h.hopeless t ht).andThen next

theorem BreaksOff.map (h : BreaksOff reader front rest e) (f : α → β) :
    BreaksOff (fun ts => (reader ts).map f) front rest e :=
  h.andThen fun a => ⟨f a, rfl⟩

/-- A failure of the second reader is one of both: the first reads the same whatever is changed
behind the first token that it leaves. -/
theorem Predictive.breaksOff_andThen (hreader : Predictive reader)
    (ha : reader ts = (.ok a, front ++ rest)) (next : α → List Token → Parsed β)
    (h : BreaksOff (next a) front rest e) (hnil : Accepts (next a) []) :
    ∃ before, ts = before ++ rest ∧
      BreaksOff (fun ts => (reader ts).andThen next) before rest e := by
  obtain ⟨first, rfl, hfirst⟩ := hreader _ _ _ ha
  have hread : ∀ us, BeginsAs us (front ++ rest) →
      (reader (first ++ us)).andThen next = next a us := by
    intro us hus
    rw [hfirst us hus]
    rfl
  have haccepts : ∀ us, BeginsAs us (front ++ rest) → Accepts (next a) us →
      Accepts (fun ts => (reader ts).andThen next) (first ++ us) := by
    rintro us hus ⟨b, hb⟩
    exact ⟨b, (hread us hus).trans hb⟩
  refine ⟨first ++ front, by simp, h.names.append_left first, ?_, ?_⟩
  · cases front with
    | nil => exact .inl (haccepts [] .nil hnil)
    | cons t front =>
        rw [List.append_assoc]
        exact h.completes.imp (haccepts _ .cons) (haccepts _ .cons)
  · intro t ht more b after hb
    have hbegins : BeginsAs (front ++ t :: more) (front ++ rest) :=
      (BeginsAs.of_mem ht).append_left front
    refine h.hopeless t ht more b after ?_
    simpa [hread _ hbegins] using hb

/-- One reader after another fails at once if both do. -/
theorem FailsAtOnce.andThen (hfails : FailsAtOnce reader) (hreader : Predictive reader)
    (hnext : ∀ a, FailsAtOnce (next a)) (hnil : ∀ a, Accepts (next a) []) :
    FailsAtOnce fun ts => (reader ts).andThen next := by
  intro ts e us h
  rcases Parsed.andThen_eq_error_iff.1 h with herror | ⟨a, mid, ha, herror⟩
  · obtain ⟨front, rest, hts, hbreaks⟩ := hfails _ _ _ herror
    exact ⟨front, rest, hts, hbreaks.andThen hnil⟩
  · obtain ⟨front, rest, rfl, hbreaks⟩ := hnext a _ _ _ herror
    obtain ⟨before, hts, hbreaks⟩ := hreader.breaksOff_andThen ha next hbreaks (hnil a)
    exact ⟨before, rest, hts, hbreaks⟩

theorem FailsAtOnce.map (hfails : FailsAtOnce reader) (f : α → β) :
    FailsAtOnce fun ts => (reader ts).map f := by
  intro ts e us h
  obtain ⟨front, rest, hts, hbreaks⟩ := hfails _ _ _ (Parsed.map_eq_error_iff.1 h)
  exact ⟨front, rest, hts, hbreaks.map f⟩

/-- A reader that takes up one token and goes on as another does breaks off where the other one
does. -/
theorem BreaksOff.cons (h : BreaksOff reader' front rest e)
    (heq : ∀ us, reader (t :: us) = reader' us) : BreaksOff reader (t :: front) rest e where
  names := h.names.append_left [t]
  completes := by
    have haccepts : ∀ us, Accepts reader' us → Accepts reader (t :: us) := by
      rintro us ⟨a, ha⟩
      exact ⟨a, (heq us).trans ha⟩
    exact h.completes.imp (haccepts front) (haccepts (front ++ [oneDay]))
  hopeless := by
    intro u hu more a after ha
    exact h.hopeless u hu more a after ((heq _).symm.trans ha)

/-- A reader that does what another one does on all tokens with the same first one breaks off
where the other one does. -/
theorem BreaksOff.congr (h : BreaksOff reader' front rest e) (hts : t :: ts = front ++ rest)
    (heq : ∀ us, reader (t :: us) = reader' (t :: us))
    (hnil : Accepts reader [] ∨ Accepts reader [oneDay]) : BreaksOff reader front rest e := by
  cases front with
  | nil =>
      obtain rfl : t :: ts = rest := hts
      refine ⟨h.names, hnil, ?_⟩
      intro u hu more a after ha
      obtain rfl := Option.some.inj hu
      exact h.hopeless t rfl more a after ((heq more).symm.trans ha)
  | cons u front =>
      obtain ⟨rfl, -⟩ := List.cons.inj hts
      have haccepts : ∀ us, Accepts reader' (t :: us) → Accepts reader (t :: us) := by
        rintro us ⟨a, ha⟩
        exact ⟨a, (heq us).trans ha⟩
      refine ⟨h.names, h.completes.imp (haccepts _) (haccepts _), ?_⟩
      intro u hu more a after ha
      exact h.hopeless u hu more a after ((heq _).symm.trans ha)

end Readers

/-! ## The readers of an expression -/

/-! ### In success -/

/-- Operations are read with one token ahead. -/
theorem predictive_operation : Predictive operation := by
  intro ts op rest h
  obtain ⟨front, rfl, hop⟩ := (derived_operation _ _ _).1 h
  exact ⟨front, rfl, fun rest' hrest' =>
    (derived_operation _ _ _).2 ⟨front, rfl, hop.of_follow hrest'.noNewArgument⟩⟩

/-- Dates in their place are read with one token ahead. -/
theorem predictive_primary : Predictive primary := by
  intro ts a rest h
  obtain ⟨front, rfl, ha⟩ := (derived_primary _ _ _).1 h
  exact ⟨front, rfl, fun rest' hrest' =>
    (derived_primary _ _ _).2 ⟨front, rfl, ha.of_follow hrest'.noNewArgument⟩⟩

/-- Whether there is a second side is told by one token ahead. -/
theorem predictive_rangeTail (start : Expr) : Predictive (rangeTail start) := by
  intro ts base rest h
  rcases rangeTail_eq_ok_iff.1 h with ⟨rfl, rfl, hdots⟩ | ⟨dots, us, stop, rfl, hdots, hstop, rfl⟩
  · exact ⟨[], rfl, fun rest' hrest' =>
      rangeTail_eq_ok_iff.2 (.inl ⟨rfl, rfl, fun t ht => hdots t (hrest' t ht)⟩)⟩
  · obtain ⟨front, rfl, hfront⟩ := predictive_primary _ _ _ hstop
    exact ⟨dots :: front, rfl, fun rest' hrest' =>
      rangeTail_eq_ok_iff.2 (.inr ⟨dots, front ++ rest', stop, rfl, hdots, hfront _ hrest', rfl⟩)⟩

/-- The loop over operations after one of them. -/
def moreOperations (op : Operation) (ts : List Token) : Parsed (List Operation) :=
  (operations ts).map (op :: ·)

/-- There need not be an operation. -/
theorem accepts_operations_nil : Accepts operations [] :=
  ⟨[], by rw [operations]⟩

theorem accepts_moreOperations_nil (op : Operation) : Accepts (moreOperations op) [] :=
  accepts_operations_nil.andThen fun ops => ⟨op :: ops, rfl⟩

/-- A pipe is passed over, and an operation has to follow. -/
theorem operations_cons_of_pipe (ht : t.kind = .pipe) (ts : List Token) :
    operations (t :: ts) = (operation ts).andThen moreOperations := by
  rw [operations, if_pos ht]
  split <;> rename_i hop <;> simp only [hop] <;> rfl

/-- Without a pipe an operation is read if one begins. -/
theorem operations_cons_of_startsOperation (ht : t.kind ≠ .pipe)
    (hstarts : startsOperation t = true) (ts : List Token) :
    operations (t :: ts) = (operation (t :: ts)).andThen moreOperations := by
  rw [operations, if_neg ht, if_pos hstarts]
  split <;> rename_i hop <;> simp only [hop] <;> rfl

/-- An operation and those that the loop reads behind it. -/
theorem andThen_moreOperations {op : Operation} {ops : List Operation}
    (hop : operation ts = (.ok op, us)) (hops : operations us = (.ok ops, rest)) :
    (operation ts).andThen moreOperations = (.ok (op :: ops), rest) :=
  Parsed.andThen_eq_ok_iff.2 ⟨op, us, hop, Parsed.map_eq_ok_iff.2 ⟨ops, hops, rfl⟩⟩

/-- Whether there are more operations is told by one token ahead. -/
theorem predictive_operations : Predictive operations := by
  intro ts ops rest h
  fun_induction operations ts generalizing ops with
  | case1 =>
      cases h
      refine ⟨[], rfl, fun rest' hrest' => ?_⟩
      cases rest' with
      | nil => rw [List.append_nil, operations]
      | cons t rest' => cases hrest' t rfl
  | case2 => cases h
  | case3 t ts hpipe op after hop hlt ih =>
      obtain ⟨more, hmore, rfl⟩ := Parsed.map_eq_ok_iff.1 h
      obtain ⟨first, rfl, hfirst⟩ := predictive_operation _ _ _ hop
      obtain ⟨second, rfl, hsecond⟩ := ih _ hmore
      refine ⟨t :: (first ++ second), by simp, fun rest' hrest' => ?_⟩
      rw [List.cons_append, operations_cons_of_pipe hpipe, List.append_assoc]
      exact andThen_moreOperations (hfirst _ (hrest'.append_left second)) (hsecond _ hrest')
  | case4 => cases h
  | case5 t ts hpipe hstarts op after hop hlt ih =>
      obtain ⟨more, hmore, rfl⟩ := Parsed.map_eq_ok_iff.1 h
      obtain ⟨first, hts, hfirst⟩ := predictive_operation _ _ _ hop
      obtain ⟨second, rfl, hsecond⟩ := ih _ hmore
      cases first with
      | nil => simp [hts] at hlt
      | cons u first =>
          obtain ⟨rfl, rfl⟩ := List.cons.inj hts
          refine ⟨t :: (first ++ second), by simp, fun rest' hrest' => ?_⟩
          rw [List.cons_append, operations_cons_of_startsOperation hpipe hstarts,
            List.append_assoc]
          exact andThen_moreOperations (hfirst _ (hrest'.append_left second)) (hsecond _ hrest')
  | case6 t ts hpipe hstarts =>
      cases h
      refine ⟨[], rfl, fun rest' hrest' => ?_⟩
      cases rest' with
      | nil => rw [List.append_nil, operations]
      | cons u rest' =>
          obtain rfl : t = u := by simpa using hrest' u rfl
          rw [List.nil_append, operations, if_neg hpipe, if_neg hstarts]

/-! ### In failure -/

/-- The first token is one that a reader never takes. -/
theorem breaksOff_nil {α : Type} {reader : List Token → Parsed α} (hnames : e.Names [] (t :: ts))
    (hnumber : Accepts reader [oneDay]) (hrejects : Rejects reader [t]) :
    BreaksOff reader [] (t :: ts) e where
  names := hnames
  completes := .inr hnumber
  hopeless := by
    intro u hu
    obtain rfl := Option.some.inj hu
    exact hrejects

/-- A sign that no quantity follows. -/
theorem breaksOff_operand {α : Type} {reader : List Token → Parsed α} {f : Token → α}
    (heq : ∀ us, reader (t :: us) = (operand t us).map f)
    (h : operand t ts = (.error e, rest)) : BreaksOff reader [t] ts e := by
  have he : e = .missingOperand t := by
    unfold operand at h
    split at h
    · cases h
      rfl
    · split at h
      · cases h
      · cases h
        rfl
  subst he
  refine ⟨rfl, .inr ⟨f oneDay, heq _⟩, ?_⟩
  intro u hu more a after ha
  obtain ⟨following, rfl⟩ := List.head?_eq_some_iff.1 hu
  obtain ⟨q, hq, -⟩ := Parsed.map_eq_ok_iff.1 ((heq _).symm.trans ha)
  obtain ⟨hcons, hquantity⟩ := operand_eq_ok_iff.1 hq
  obtain ⟨rfl, -⟩ := List.cons.inj hcons
  rw [operand_eq_ok_iff.2 ⟨rfl, hquantity⟩] at h
  cases h

/-- A keyword that is no operation is none whatever follows it. -/
theorem keywordOperation_eq_error (h : keywordOperation t ts = (.error e, rest)) :
    e = .unknownKeyword t ∧
      ∀ us, keywordOperation t us = (.error (.unknownKeyword t), us) := by
  unfold keywordOperation at h
  split at h
  · split at h
    · split at h <;> cases h
    · cases h
  · split at h
    · cases h
    · rename_i hargument hboundary
      cases h
      refine ⟨rfl, fun us => ?_⟩
      unfold keywordOperation
      rw [if_neg hargument, if_neg hboundary]

/-- Operations break off at the first token that no operation has there. -/
theorem failsAtOnce_operation : FailsAtOnce operation := by
  intro ts e us h
  have hnumber : Accepts operation [oneDay] := ⟨_, rfl⟩
  unfold operation at h
  split at h
  · cases h
    exact ⟨[], [], rfl, rfl, .inr hnumber, fun t ht => by cases ht⟩
  · rename_i t ts
    split at h
    · rename_i hkind
      have heq : ∀ us, operation (t :: us) =
          (operand t us).map fun quantity => { op := t.text, value := quantity.text } := by
        intro us
        simp only [operation, hkind]
      exact ⟨[t], ts, rfl, breaksOff_operand heq (Parsed.map_eq_error_iff.1 h)⟩
    · cases h
    · rename_i hkind
      obtain ⟨rfl, hkeyword⟩ := keywordOperation_eq_error h
      refine ⟨[], t :: ts, rfl, breaksOff_nil rfl hnumber fun more a rest ha => ?_⟩
      simp [operation, hkind, hkeyword] at ha
    · rename_i hoperator hunit hkeyword
      cases h
      refine ⟨[], t :: ts, rfl, breaksOff_nil rfl hnumber fun more a rest ha => ?_⟩
      simp [operation] at ha

/-- Dates in their place break off at the first token that no date has there. -/
theorem failsAtOnce_primary : FailsAtOnce primary := by
  intro ts e us h
  have hnumber : Accepts primary [oneDay] := ⟨_, rfl⟩
  unfold primary at h
  split at h
  · cases h
    exact ⟨[], [], rfl, rfl, .inr hnumber, fun t ht => by cases ht⟩
  · rename_i t ts
    split at h
    · cases h
    · rename_i hkind
      split at h
      · cases h
      · rename_i hday
        obtain ⟨front, rest, hts, hbreaks⟩ :=
          failsAtOnce_operation _ _ _ (Parsed.map_eq_error_iff.1 h)
        refine ⟨front, rest, hts, (hbreaks.map .operation).congr hts (fun us => ?_) (.inr hnumber)⟩
        simp only [primary, hkind, if_neg hday]
    · cases h
    · cases h
    · cases h
    · rename_i hkind
      have heq : ∀ us, primary (t :: us) =
          (operand t us).map fun quantity => .date (t.text ++ quantity.text) := by
        intro us
        simp only [primary, hkind]
      exact ⟨[t], ts, rfl, breaksOff_operand heq (Parsed.map_eq_error_iff.1 h)⟩
    · cases h
      refine ⟨[], t :: ts, rfl, breaksOff_nil rfl hnumber fun more a rest ha => ?_⟩
      simp [primary] at ha

/-- After a first side, it is the second side that can break off. -/
theorem failsAtOnce_rangeTail (start : Expr) : FailsAtOnce (rangeTail start) := by
  intro ts e us h
  unfold rangeTail at h
  split at h
  · cases h
  · split at h
    · rename_i t ts hdots
      obtain ⟨front, rest, rfl, hbreaks⟩ := failsAtOnce_primary _ _ _ (Parsed.map_eq_error_iff.1 h)
      refine ⟨t :: front, rest, rfl, (hbreaks.map (.range start)).cons fun us => ?_⟩
      rw [rangeTail, if_pos hdots]
    · cases h

/-- The loop breaks off within an operation, or where none begins. -/
theorem failsAtOnce_operations : FailsAtOnce operations := by
  intro ts e us h
  fun_induction operations ts with
  | case1 => cases h
  | case2 t ts hpipe error after hop =>
      cases h
      obtain ⟨front, rest, rfl, hbreaks⟩ := failsAtOnce_operation _ _ _ hop
      exact ⟨t :: front, rest, rfl,
        (hbreaks.andThen accepts_moreOperations_nil).cons (operations_cons_of_pipe hpipe)⟩
  | case3 t ts hpipe op after hop hlt ih =>
      obtain ⟨front, rest, rfl, hbreaks⟩ := ih (Parsed.map_eq_error_iff.1 h)
      obtain ⟨before, rfl, hbreaks⟩ :=
        predictive_operation.breaksOff_andThen hop moreOperations (hbreaks.map (op :: ·))
          (accepts_moreOperations_nil op)
      exact ⟨t :: before, rest, rfl, hbreaks.cons (operations_cons_of_pipe hpipe)⟩
  | case4 t ts hpipe hstarts error after hop =>
      cases h
      obtain ⟨front, rest, hts, hbreaks⟩ := failsAtOnce_operation _ _ _ hop
      exact ⟨front, rest, hts, (hbreaks.andThen accepts_moreOperations_nil).congr hts
        (operations_cons_of_startsOperation hpipe hstarts) (.inl accepts_operations_nil)⟩
  | case5 t ts hpipe hstarts op after hop hlt ih =>
      obtain ⟨front, rest, rfl, hbreaks⟩ := ih (Parsed.map_eq_error_iff.1 h)
      obtain ⟨before, hts, hbreaks⟩ :=
        predictive_operation.breaksOff_andThen hop moreOperations (hbreaks.map (op :: ·))
          (accepts_moreOperations_nil op)
      exact ⟨before, rest, hts, hbreaks.congr hts
        (operations_cons_of_startsOperation hpipe hstarts) (.inl accepts_operations_nil)⟩
  | case6 => cases h

/-- Expressions are read with one token ahead. -/
theorem predictive_expression : Predictive expression :=
  predictive_primary.andThen fun start =>
    (predictive_rangeTail start).andThen fun base => predictive_operations.map base.piped

/-- An expression breaks off where one of its parts does. -/
theorem failsAtOnce_expression : FailsAtOnce expression := by
  have hoperations : ∀ base : Expr, Accepts (fun ts => (operations ts).map base.piped) [] :=
    fun base => accepts_operations_nil.andThen fun ops => ⟨base.piped ops, rfl⟩
  have hrange : ∀ start, Accepts (rangeTail start) [] := fun start => ⟨start, rfl⟩
  have htail := fun start => (failsAtOnce_rangeTail start).andThen (predictive_rangeTail start)
    (fun base => failsAtOnce_operations.map base.piped) hoperations
  exact failsAtOnce_primary.andThen predictive_primary htail
    fun start => (hrange start).andThen hoperations

/-! ### The end of the tokens -/

/-- Nothing may be left after an expression. -/
def atEnd (e : Expr) : List Token → Parsed Expr
  | [] => (.ok e, [])
  | t :: ts => (.error (.trailingInput t), t :: ts)

/-- An expression is read, and then nothing may be left. -/
theorem read_cons (t : Token) (ts : List Token) :
    Expr.read (t :: ts) = (expression (t :: ts)).andThen atEnd := by
  rw [Expr.read]
  congr
  funext e rest
  cases rest <;> rfl

/-- At the end any token is one too many. -/
theorem failsAtOnce_atEnd (e : Expr) : FailsAtOnce (atEnd e) := by
  intro ts error us h
  cases ts with
  | nil => cases h
  | cons t ts =>
      cases h
      refine ⟨[], t :: ts, rfl, rfl, .inl ⟨e, rfl⟩, ?_⟩
      intro u hu more a after ha
      cases ha

/-- A single number is an expression. -/
theorem accepts_oneDay : Accepts Expr.read [oneDay] := by
  refine ⟨.date "1d", ?_⟩
  have hprimary : primary [oneDay] = (.ok (.date "1d"), []) := rfl
  have hops : operations [] = (.ok [], []) := by rw [operations]
  rw [read_cons, expression, hprimary]
  simp only [Parsed.andThen, rangeTail, hops, Parsed.map]
  rfl

/-- An expression that is read to the end breaks off at the first token with which none goes on.
-/
theorem failsAtOnce_read : FailsAtOnce Expr.read := by
  intro ts e us h
  cases ts with
  | nil =>
      cases h
      exact ⟨[], [], rfl, rfl, .inr accepts_oneDay, fun t ht => by cases ht⟩
  | cons t ts =>
      have hwhole := failsAtOnce_expression.andThen predictive_expression failsAtOnce_atEnd
        fun e => ⟨e, rfl⟩
      rw [read_cons] at h
      obtain ⟨front, rest, hts, hbreaks⟩ := hwhole _ _ _ h
      exact ⟨front, rest, hts, hbreaks.congr hts (read_cons t) (.inr accepts_oneDay)⟩

/-! ## Parsing -/

section Parsing

variable {tokens : List Token}

/-- The end of the source is not among the tokens before it. -/
theorem kind_ne_eof_of_mem_beforeEof (ht : t ∈ beforeEof tokens) : t.kind ≠ .eof := by
  have hkind := List.mem_takeWhile_imp (p := fun t : Token => decide (t.kind ≠ .eof)) ht
  simpa using hkind

theorem forall_kind_ne_eof_append_oneDay (hts : ∀ t ∈ ts, t.kind ≠ .eof) :
    ∀ t ∈ ts ++ [oneDay], t.kind ≠ .eof :=
  List.forall_mem_append.2 ⟨hts, by simp [oneDay]⟩

/-- Tokens that are read to the end are an expression. -/
theorem Accepts.exists_parseTokens (hts : ∀ t ∈ ts, t.kind ≠ .eof) (h : Accepts Expr.read ts) :
    ∃ e, parseTokens ts = .ok e := by
  obtain ⟨e, he⟩ := h
  exact ⟨e, by rw [parseTokens, beforeEof_of_forall hts, he]⟩

/-- Tokens on which all reading fails are the beginning of no expression. -/
theorem Rejects.not_isViable (hts : ∀ t ∈ ts, t.kind ≠ .eof) (h : Rejects Expr.read ts) :
    ¬ IsViable ts := by
  rintro ⟨more, e, he⟩
  rw [parseTokens, beforeEof_append hts] at he
  exact h (beforeEof more) e _ (Prod.ext he rfl)

/-- What was read before a failure is the beginning of an expression. -/
theorem BreaksOff.isViable (h : BreaksOff Expr.read front rest e)
    (hfront : ∀ t ∈ front, t.kind ≠ .eof) : IsViable front := by
  rcases h.completes with haccepts | haccepts
  · obtain ⟨a, ha⟩ := haccepts.exists_parseTokens hfront
    exact ⟨[], a, by rwa [List.append_nil]⟩
  · exact ⟨[oneDay], haccepts.exists_parseTokens (forall_kind_ne_eof_append_oneDay hfront)⟩

/-- Where nothing is left after a failure, one number more makes up an expression. -/
theorem BreaksOff.exists_next (h : BreaksOff Expr.read front [] e)
    (hfront : ∀ t ∈ front, t.kind ≠ .eof) (hfails : (Expr.read front).1 = .error e) :
    ∃ next a, next.kind ≠ .eof ∧ parseTokens (front ++ [next]) = .ok a := by
  rcases h.completes with ⟨a, ha⟩ | haccepts
  · rw [ha] at hfails
    cases hfails
  · obtain ⟨a, ha⟩ := haccepts.exists_parseTokens (forall_kind_ne_eof_append_oneDay hfront)
    exact ⟨oneDay, a, by simp [oneDay], ha⟩

/-- Every error of the parser points at the first token with which no expression goes on. -/
theorem pointsInto_of_parseTokens (h : parseTokens tokens = .error e) :
    e.PointsInto (beforeEof tokens) := by
  obtain ⟨front, rest, hts, hbreaks⟩ := failsAtOnce_read _ e _ (Prod.ext h rfl)
  rw [parseTokens, hts] at h
  have hkinds : ∀ t ∈ front ++ rest, t.kind ≠ .eof := by
    rw [← hts]
    exact fun t => kind_ne_eof_of_mem_beforeEof
  obtain ⟨hfront, hrest⟩ := List.forall_mem_append.1 hkinds
  have hviable := hbreaks.isViable hfront
  have hhopeless : ∀ t ∈ rest.head?, ¬ IsViable (front ++ [t]) := by
    intro t ht
    have hkinds : ∀ u ∈ front ++ [t], u.kind ≠ .eof :=
      List.forall_mem_append.2 ⟨hfront, by simpa using hrest t (List.mem_of_mem_head? ht)⟩
    exact (hbreaks.hopeless t ht).not_isViable hkinds
  have hblamed : ∀ t ∈ rest.head?, ∃ before after, front ++ rest = before ++ t :: after ∧
      IsViable before ∧ ¬ IsViable (before ++ [t]) := by
    intro t ht
    obtain ⟨after, rfl⟩ := List.head?_eq_some_iff.1 ht
    exact ⟨front, after, rfl, hviable, hhopeless t ht⟩
  have hnames := hbreaks.names
  rw [hts]
  cases e with
  | unexpectedToken t | unknownKeyword t | trailingInput t => exact hblamed t hnames
  | missingOperand sign =>
      obtain ⟨before, rfl⟩ := List.getLast?_eq_some_iff.1 hnames
      exact ⟨before, rest, by simp, hviable, by simpa using hhopeless⟩
  | unexpectedEnd | emptyExpression =>
      obtain rfl : rest = [] := hnames
      rw [List.append_nil] at h ⊢
      exact hbreaks.exists_next hfront h
  | lex | invalidTransform | transformPart => exact hnames

/-- A range without its second date: the token after the dots is to blame. -/
theorem pointsInto_of_parseTokens_range :
    parseTokens [⟨.keyword, "today", 0⟩, ⟨.range, "...", 5⟩, ⟨.pipe, "|", 8⟩, ⟨.eof, "", 9⟩] =
        .error (.unexpectedToken ⟨.pipe, "|", 8⟩) ∧
      ParseError.PointsInto [⟨.keyword, "today", 0⟩, ⟨.range, "...", 5⟩, ⟨.pipe, "|", 8⟩]
        (.unexpectedToken ⟨.pipe, "|", 8⟩) := by
  have hfails : parseTokens [⟨.keyword, "today", 0⟩, ⟨.range, "...", 5⟩, ⟨.pipe, "|", 8⟩,
      ⟨.eof, "", 9⟩] = .error (.unexpectedToken ⟨.pipe, "|", 8⟩) := by decide +kernel
  exact ⟨hfails, pointsInto_of_parseTokens hfails⟩

end Parsing

end Almanac
