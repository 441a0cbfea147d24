import Almanac.Expr.Parser
import Almanac.Proofs.Token.Word

/-!
# The grammar of expressions

The grammar says which words are an expression, and which one.  It is given as
relations between words and what they mean, and knows neither tokens nor the order in
which a text is read.  A keyword that can have an argument has one whenever the next word
can be it, and so every relation also has the words that follow.

The readers of expressions accept exactly what the grammar derives.

Main definitions:

- `IsOperation`, `IsPrimary`, `IsBase`: operations, dates in their place, ranges.
- `IsRun`, `IsPipeline`: operations one after the other, with pipes or without.
- `IsExpression`: a base alone, or a base and all operations on it.
- `Derived`: a reader gives back what a relation derives, and the words after it.

Main results:

- Theorems `derived_operation`, `derived_primary`: each reader derives its relation.
- Theorems `isBase_of_rangeTail`, `rangeTail_of_isBase`: so do the two readers of a base.
- Theorem `operations_eq_ok_iff`: the loop over operations takes in runs and pipelines.
- Theorem `read_eq_ok_iff`: an expression is read exactly if it is derived.
- Theorem `parseTokens_eq_ok_iff`: so it is from tokens with an end of the source or
  without.
-/

namespace Almanac

variable {follow : List Word}

/-! ## Words by their roles -/

namespace Word

/-- A number that can follow a sign. -/
def IsQuantity (w : Word) : Prop :=
  w.kind = .unit ∨ w.kind = .number

/-- A word that a keyword before it takes as its argument. -/
def IsArgument (w : Word) : Prop :=
  w.kind = .number ∨ w.kind = .time ∨ w.kind = .keyword

/-- A keyword that can have an argument. -/
def TakesArgument (w : Word) : Prop :=
  w.kind = .keyword ∧ w.text ∈ ["day", "time", "round", "trunc"]

/-- A keyword that names the start or the end of a period. -/
def IsBoundary (w : Word) : Prop :=
  w.kind = .keyword ∧ (w.text = "start" ∨ w.text = "end" ∨
    "startof".toList <+: w.text.toList ∨ "endof".toList <+: w.text.toList)

/-- A keyword that is a date by itself. -/
def IsDay (w : Word) : Prop :=
  w.kind = .keyword ∧ w.text ∈ dayKeywords

/-- A word that is a date as it stands. -/
def IsLiteral (w : Word) : Prop :=
  w.kind = .date ∨ w.kind = .time ∨ w.kind = .unit

end Word

/-! ## The grammar -/

/-- An operation that begins with a keyword. -/
inductive IsKeywordOperation : List Word → List Word → Operation → Prop
  | withArgument {k a : Word} {follow : List Word} (hk : k.TakesArgument) (ha : a.IsArgument) :
      IsKeywordOperation [k, a] follow { op := k.text, value := a.text }
  | bare {k : Word} {follow : List Word} (hk : k.TakesArgument)
      (hfollow : ∀ w ∈ follow.head?, ¬ w.IsArgument) :
      IsKeywordOperation [k] follow { op := k.text, value := "" }
  | boundary {k : Word} {follow : List Word} (hk : k.IsBoundary) :
      IsKeywordOperation [k] follow { op := k.text, value := "" }

/-- An operation: a sign and a number, a number with its sign or without, or a keyword. -/
inductive IsOperation : List Word → List Word → Operation → Prop
  | shift {sign quantity : Word} {follow : List Word} (hsign : sign.kind = .operator)
      (hquantity : quantity.IsQuantity) :
      IsOperation [sign, quantity] follow { op := sign.text, value := quantity.text }
  | signed {w : Word} {sign : Char} {value : List Char} {follow : List Word}
      (hw : w.kind = .unit) (hsign : IsSign sign) (htext : w.text.toList = sign :: value) :
      IsOperation [w] follow { op := String.singleton sign, value := String.ofList value }
  | unsigned {w : Word} {follow : List Word} (hw : w.kind = .unit)
      (hsign : ∀ c ∈ w.text.toList.head?, ¬ IsSign c) :
      IsOperation [w] follow { op := "+", value := w.text }
  | keyword {ws follow : List Word} {op : Operation} (h : IsKeywordOperation ws follow op) :
      IsOperation ws follow op

/-- A date, a variable or an operation in their place. -/
inductive IsPrimary : List Word → List Word → Expr → Prop
  | var {w : Word} {follow : List Word} (hw : w.kind = .var) : IsPrimary [w] follow (.var w.text)
  | literal {w : Word} {follow : List Word} (hw : w.IsLiteral) :
      IsPrimary [w] follow (.date w.text)
  | day {w : Word} {follow : List Word} (hw : w.IsDay) : IsPrimary [w] follow (.date w.text)
  | shift {sign quantity : Word} {follow : List Word} (hsign : sign.kind = .operator)
      (hquantity : quantity.IsQuantity) :
      IsPrimary [sign, quantity] follow (.date (sign.text ++ quantity.text))
  | operation {ws follow : List Word} {op : Operation} (h : IsKeywordOperation ws follow op) :
      IsPrimary ws follow (.operation op)

/-- A date, or two of them with three dots between. -/
inductive IsBase : List Word → List Word → Expr → Prop
  | single {ws follow : List Word} {e : Expr} (h : IsPrimary ws follow e) : IsBase ws follow e
  | range {ws us follow : List Word} {dots : Word} {start stop : Expr}
      (hstart : IsPrimary ws (dots :: (us ++ follow)) start) (hdots : dots.kind = .range)
      (hstop : IsPrimary us follow stop) : IsBase (ws ++ dots :: us) follow (.range start stop)

/-- Any number of operations with nothing between them. -/
inductive IsRun : List Word → List Word → List Operation → Prop
  | nil {follow : List Word} : IsRun [] follow []
  | cons {ws us follow : List Word} {op : Operation} {ops : List Operation}
      (hop : IsOperation ws (us ++ follow) op) (hops : IsRun us follow ops) :
      IsRun (ws ++ us) follow (op :: ops)

/-- Any number of runs up to the end, each with a pipe before it and one operation at least. -/
inductive IsPipeline : List Word → List Operation → Prop
  | nil : IsPipeline [] []
  | cons {pipe : Word} {ws us vs : List Word} {op : Operation} {ops more : List Operation}
      (hpipe : pipe.kind = .pipe) (hop : IsOperation ws (us ++ vs) op) (hops : IsRun us vs ops)
      (hmore : IsPipeline vs more) :
      IsPipeline (pipe :: (ws ++ us ++ vs)) (op :: ops ++ more)

/-- A base alone, or a base, a run of operations on it and a pipeline.  With one operation or
more there is one pipe over the base, and it holds all of them in the order they are written. -/
inductive IsExpression : List Word → Expr → Prop
  | alone {ws : List Word} {base : Expr} (hbase : IsBase ws [] base) : IsExpression ws base
  | pipe {ws us vs : List Word} {base : Expr} {ops more : List Operation}
      (hbase : IsBase ws (us ++ vs) base) (hops : IsRun us vs ops) (hmore : IsPipeline vs more)
      (hsome : ops ++ more ≠ []) :
      IsExpression (ws ++ us ++ vs) (.pipe base (ops ++ more))

/-! ### Expressions with operations or without -/

section Expressions

variable {ws us vs : List Word} {e base : Expr} {ops more : List Operation}

/-- No operation is written with no words. -/
theorem IsRun.eq_nil (h : IsRun us follow []) : us = [] := by
  cases h
  rfl

/-- No operation is written with no pipe. -/
theorem IsPipeline.eq_nil (h : IsPipeline vs []) : vs = [] := by
  generalize hops : ([] : List Operation) = ops at h
  cases h with
  | nil => rfl
  | cons => cases hops

/-- The two cases of an expression in one. -/
theorem isExpression_piped (hbase : IsBase ws (us ++ vs) base) (hops : IsRun us vs ops)
    (hmore : IsPipeline vs more) : IsExpression (ws ++ us ++ vs) (base.piped (ops ++ more)) := by
  cases hall : ops ++ more with
  | nil =>
      obtain ⟨rfl, rfl⟩ := List.append_eq_nil_iff.1 hall
      obtain rfl := hops.eq_nil
      obtain rfl := hmore.eq_nil
      rw [List.append_nil, List.append_nil]
      exact .alone hbase
  | cons op rest =>
      have hsome : ops ++ more ≠ [] := by simp [hall]
      rw [Expr.piped, ← hall]
      exact .pipe hbase hops hmore hsome

/-- Every expression is a base, a run and a pipeline, though the last two can be empty. -/
theorem IsExpression.exists_piped (h : IsExpression ws e) :
    ∃ (front us vs : List Word) (base : Expr) (ops more : List Operation),
      ws = front ++ us ++ vs ∧ e = base.piped (ops ++ more) ∧
        IsBase front (us ++ vs) base ∧ IsRun us vs ops ∧ IsPipeline vs more := by
  cases h with
  | alone hbase => exact ⟨ws, [], [], e, [], [], by simp, rfl, hbase, .nil, .nil⟩
  | @pipe front us vs base ops more hbase hops hmore hsome =>
      obtain ⟨op, rest, hall⟩ := List.exists_cons_of_ne_nil hsome
      refine ⟨front, us, vs, base, ops, more, rfl, ?_, hbase, hops, hmore⟩
      rw [hall, Expr.piped]

end Expressions

/-! ## Readers that follow the grammar -/

namespace Parsed

variable {α β : Type} {ts rest : List Token}

/-- Two readers succeed together if the second succeeds on what the first leaves. -/
theorem andThen_eq_ok_iff {r : Parsed α} {next : α → List Token → Parsed β} {b : β} :
    r.andThen next = (.ok b, rest) ↔ ∃ a mid, r = (.ok a, mid) ∧ next a mid = (.ok b, rest) := by
  obtain ⟨outcome, mid⟩ := r
  cases outcome with
  | error e => simp [andThen]
  | ok a => simp [andThen]

/-- A change of the value changes nothing in what is left. -/
theorem map_eq_ok_iff {r : Parsed α} {f : α → β} {b : β} :
    r.map f = (.ok b, rest) ↔ ∃ a, r = (.ok a, rest) ∧ f a = b := by
  simp only [map, andThen_eq_ok_iff, Prod.mk.injEq, Except.ok.injEq]
  constructor
  · rintro ⟨a, mid, hr, hb, rfl⟩
    exact ⟨a, hr, hb⟩
  · rintro ⟨a, hr, hb⟩
    exact ⟨a, rest, hr, hb, rfl⟩

end Parsed

/-- A reader derives a relation: it takes in the words that the relation has, and what it
leaves are the words that follow. -/
def Derived {α : Type} (reader : List Token → Parsed α)
    (relation : List Word → List Word → α → Prop) : Prop :=
  ∀ ts a rest, reader ts = (.ok a, rest) ↔
    ∃ front, ts = front ++ rest ∧ relation (words front) (words rest) a

/-! ### Keywords by their roles -/

section Roles

variable {t : Token}

/-- The check whether a token is an argument, by its word. -/
theorem isArgument_iff : isArgument t = true ↔ t.word.IsArgument := by
  simp [isArgument, Word.IsArgument, Token.word, or_assoc]

/-- The check whether a keyword can have an argument, by its word. -/
theorem takesArgument_iff :
    t.word.TakesArgument ↔ t.kind = .keyword ∧ argumentKeywords.contains t.text = true := by
  simp [Word.TakesArgument, Token.word, argumentKeywords]

theorem isBoundaryKeyword_iff {keyword : String} :
    isBoundaryKeyword keyword = true ↔ keyword = "start" ∨ keyword = "end" ∨
      "startof".toList <+: keyword.toList ∨ "endof".toList <+: keyword.toList := by
  simp only [isBoundaryKeyword, Bool.or_eq_true, List.isPrefixOf_iff_prefix, beq_iff_eq]
  tauto

/-- The check whether a keyword names a boundary, by its word. -/
theorem isBoundary_iff :
    t.word.IsBoundary ↔ t.kind = .keyword ∧ isBoundaryKeyword t.text = true := by
  rw [isBoundaryKeyword_iff]
  rfl

/-- A keyword with an argument is no boundary. -/
theorem not_isBoundaryKeyword_of_argument :
    ∀ keyword ∈ argumentKeywords, isBoundaryKeyword keyword = false := by
  decide

/-- A keyword that is a date by itself is no operation. -/
theorem not_operation_of_day : ∀ keyword ∈ dayKeywords,
    argumentKeywords.contains keyword = false ∧ isBoundaryKeyword keyword = false := by
  decide

end Roles

/-! ### Operations -/

/-- A sign is followed by a number, with or without a unit. -/
theorem operand_eq_ok_iff {sign q : Token} {ts rest : List Token} :
    operand sign ts = (.ok q, rest) ↔ ts = q :: rest ∧ q.word.IsQuantity := by
  cases ts with
  | nil => simp [operand]
  | cons t ts =>
      by_cases hquantity : t.kind = .unit ∨ t.kind = .number
      · simp only [operand, hquantity, if_true, Prod.mk.injEq, Except.ok.injEq, List.cons.injEq]
        constructor
        · rintro ⟨rfl, rfl⟩
          exact ⟨⟨rfl, rfl⟩, hquantity⟩
        · exact fun h => h.1
      · simp only [operand, hquantity, if_false, Prod.mk.injEq, reduceCtorEq, false_and,
          List.cons.injEq, false_iff]
        rintro ⟨⟨rfl, -⟩, h⟩
        exact hquantity h

/-- The words of an operation begin with a keyword. -/
theorem IsKeywordOperation.exists_cons {ws : List Word} {op : Operation}
    (h : IsKeywordOperation ws follow op) : ∃ k us, ws = k :: us ∧ k.kind = .keyword := by
  cases h with
  | withArgument hk ha => exact ⟨_, _, rfl, hk.1⟩
  | bare hk hfollow => exact ⟨_, _, rfl, hk.1⟩
  | boundary hk => exact ⟨_, _, rfl, hk.1⟩

/-- No keyword of an operation is a date by itself. -/
theorem IsKeywordOperation.not_isDay {k : Word} {us : List Word} {op : Operation}
    (h : IsKeywordOperation (k :: us) follow op) : ¬ k.IsDay := by
  intro hday
  obtain ⟨hargument, hboundary⟩ := not_operation_of_day _ hday.2
  have htakes : ¬ k.TakesArgument := by
    intro hk
    rw [List.contains_iff_mem.2 (show k.text ∈ argumentKeywords from hk.2)] at hargument
    cases hargument
  cases h with
  | withArgument hk ha => exact htakes hk
  | bare hk hfollow => exact htakes hk
  | boundary hk =>
      rw [isBoundaryKeyword_iff.2 hk.2] at hboundary
      cases hboundary

/-- What is read after a keyword is an operation of the grammar. -/
theorem isKeywordOperation_of_keywordOperation {k : Token} {ts rest : List Token} {op : Operation}
    (hk : k.kind = .keyword) (h : keywordOperation k ts = (.ok op, rest)) :
    ∃ front, ts = front ++ rest ∧ IsKeywordOperation (words (k :: front)) (words rest) op := by
  unfold keywordOperation at h
  split at h
  · rename_i hargument
    have htakes := takesArgument_iff.2 ⟨hk, hargument⟩
    split at h
    · rename_i a after
      split at h
      · rename_i ha
        cases h
        exact ⟨[a], rfl, .withArgument htakes (isArgument_iff.1 ha)⟩
      · rename_i ha
        cases h
        refine ⟨[], rfl, .bare htakes ?_⟩
        intro w hw
        cases hw
        exact fun h => ha (isArgument_iff.2 h)
    · cases h
      exact ⟨[], rfl, .bare htakes fun w hw => by cases hw⟩
  · split at h
    · rename_i hboundary
      cases h
      exact ⟨[], rfl, .boundary (isBoundary_iff.2 ⟨hk, hboundary⟩)⟩
    · cases h

/-- Every operation of the grammar with a keyword is read after the keyword. -/
theorem keywordOperation_of_isKeywordOperation {k : Token} {front rest : List Token}
    {op : Operation} (h : IsKeywordOperation (words (k :: front)) (words rest) op) :
    keywordOperation k (front ++ rest) = (.ok op, rest) := by
  generalize hwords : words (k :: front) = ws at h
  generalize hrest : words rest = follow at h
  rw [words_cons] at hwords
  cases h with
  | withArgument htakes ha =>
      obtain ⟨rfl, hfront⟩ := List.cons.inj hwords
      obtain ⟨a, rfl, rfl⟩ := words_eq_singleton_iff.1 hfront
      simp only [keywordOperation, (takesArgument_iff.1 htakes).2, isArgument_iff.2 ha, if_true,
        List.cons_append, List.nil_append]
      rfl
  | bare htakes hfollow =>
      obtain ⟨rfl, hfront⟩ := List.cons.inj hwords
      obtain rfl := words_eq_nil_iff.1 hfront
      cases rest with
      | nil =>
          simp only [keywordOperation, (takesArgument_iff.1 htakes).2, if_true]
          rfl
      | cons a after =>
          have ha : ¬ isArgument a = true := by
            rw [isArgument_iff]
            exact hfollow a.word (hrest ▸ rfl)
          simp only [keywordOperation, (takesArgument_iff.1 htakes).2, ha, if_true, List.nil_append]
          rfl
  | boundary hk =>
      obtain ⟨rfl, hfront⟩ := List.cons.inj hwords
      obtain rfl := words_eq_nil_iff.1 hfront
      have hboundary := (isBoundary_iff.1 hk).2
      have hargument : argumentKeywords.contains k.text = false := by
        cases hargument : argumentKeywords.contains k.text with
        | false => rfl
        | true =>
            rw [not_isBoundaryKeyword_of_argument _ (List.contains_iff_mem.1 hargument)]
              at hboundary
            cases hboundary
      simp only [keywordOperation, hargument, hboundary, if_true, Bool.false_eq_true, if_false,
        List.nil_append]
      rfl

/-- A number alone is a shift by its own sign, or forward if it has none. -/
theorem isOperation_shiftOperation {w : Word} (hw : w.kind = .unit) :
    IsOperation [w] follow (shiftOperation w.text) := by
  unfold shiftOperation
  split
  · rename_i htext
    exact .signed hw (.inr rfl) htext
  · rename_i htext
    exact .signed hw (.inl rfl) htext
  · rename_i hminus hplus
    refine .unsigned hw ?_
    intro c hc
    obtain ⟨rest, htext⟩ := List.head?_eq_some_iff.1 hc
    rintro (rfl | rfl)
    · exact hplus rest htext
    · exact hminus rest htext

/-- A number with its own sign is split behind it. -/
theorem shiftOperation_of_signed {text : String} {sign : Char} {value : List Char}
    (hsign : IsSign sign) (htext : text.toList = sign :: value) :
    shiftOperation text = { op := String.singleton sign, value := String.ofList value } := by
  rcases hsign with rfl | rfl <;> rw [shiftOperation, htext] <;> rfl

/-- A number without a sign is a shift forward. -/
theorem shiftOperation_of_unsigned {text : String}
    (hsign : ∀ c ∈ text.toList.head?, ¬ IsSign c) :
    shiftOperation text = { op := "+", value := text } := by
  unfold shiftOperation
  split
  · rename_i htext
    exact absurd (.inr rfl) (hsign '-' (htext ▸ rfl))
  · rename_i htext
    exact absurd (.inl rfl) (hsign '+' (htext ▸ rfl))
  · rfl

/-- An operation is read exactly if the grammar has it. -/
theorem derived_operation : Derived operation IsOperation := by
  intro ts op rest
  constructor
  · intro h
    unfold operation at h
    split at h
    · cases h
    · rename_i t after
      split at h
      · rename_i hkind
        obtain ⟨q, hq, rfl⟩ := Parsed.map_eq_ok_iff.1 h
        obtain ⟨rfl, hquantity⟩ := operand_eq_ok_iff.1 hq
        exact ⟨[t, q], rfl, .shift hkind hquantity⟩
      · rename_i hkind
        cases h
        exact ⟨[t], rfl, isOperation_shiftOperation hkind⟩
      · rename_i hkind
        obtain ⟨front, rfl, hfront⟩ := isKeywordOperation_of_keywordOperation hkind h
        exact ⟨t :: front, rfl, .keyword hfront⟩
      · cases h
  · rintro ⟨front, rfl, h⟩
    generalize hwords : words front = ws at h
    cases h with
    | shift hkind hquantity =>
        obtain ⟨t, after, rfl, rfl, hafter⟩ := words_eq_cons_iff.1 hwords
        obtain ⟨q, rfl, rfl⟩ := words_eq_singleton_iff.1 hafter
        rw [Token.kind_word] at hkind
        have hq : operand t (q :: rest) = (.ok q, rest) := operand_eq_ok_iff.2 ⟨rfl, hquantity⟩
        simp only [List.cons_append, List.nil_append, operation, hkind]
        exact Parsed.map_eq_ok_iff.2 ⟨q, hq, rfl⟩
    | signed hkind hsign htext =>
        obtain ⟨t, rfl, rfl⟩ := words_eq_singleton_iff.1 hwords
        rw [Token.kind_word] at hkind
        rw [Token.text_word] at htext
        simp only [List.cons_append, List.nil_append, operation, hkind,
          shiftOperation_of_signed hsign htext]
    | unsigned hkind hsign =>
        obtain ⟨t, rfl, rfl⟩ := words_eq_singleton_iff.1 hwords
        rw [Token.kind_word] at hkind
        rw [Token.text_word] at hsign
        simp only [List.cons_append, List.nil_append, operation, hkind,
          shiftOperation_of_unsigned hsign, Token.text_word]
    | keyword h =>
        subst hwords
        obtain ⟨k, us, hcons, hkind⟩ := h.exists_cons
        obtain ⟨t, after, rfl, rfl, -⟩ := words_eq_cons_iff.1 hcons
        rw [Token.kind_word] at hkind
        simp only [List.cons_append, operation, hkind]
        exact keywordOperation_of_isKeywordOperation h

/-! ### Primaries and ranges -/

/-- A date in its place is read exactly if the grammar has it. -/
theorem derived_primary : Derived primary IsPrimary := by
  intro ts e rest
  constructor
  · intro h
    unfold primary at h
    split at h
    · cases h
    · rename_i t after
      split at h
      · rename_i hkind
        cases h
        exact ⟨[t], rfl, .var hkind⟩
      · rename_i hkind
        split at h
        · rename_i hday
          cases h
          exact ⟨[t], rfl, .day ⟨hkind, List.contains_iff_mem.1 hday⟩⟩
        · obtain ⟨op, hop, rfl⟩ := Parsed.map_eq_ok_iff.1 h
          simp only [operation, hkind] at hop
          obtain ⟨front, rfl, hfront⟩ := isKeywordOperation_of_keywordOperation hkind hop
          exact ⟨t :: front, rfl, .operation hfront⟩
      · rename_i hkind
        cases h
        exact ⟨[t], rfl, .literal (.inl hkind)⟩
      · rename_i hkind
        cases h
        exact ⟨[t], rfl, .literal (.inr (.inl hkind))⟩
      · rename_i hkind
        cases h
        exact ⟨[t], rfl, .literal (.inr (.inr hkind))⟩
      · rename_i hkind
        obtain ⟨q, hq, rfl⟩ := Parsed.map_eq_ok_iff.1 h
        obtain ⟨rfl, hquantity⟩ := operand_eq_ok_iff.1 hq
        exact ⟨[t, q], rfl, .shift hkind hquantity⟩
      · cases h
  · rintro ⟨front, rfl, h⟩
    generalize hwords : words front = ws at h
    cases h with
    | var hkind =>
        obtain ⟨t, rfl, rfl⟩ := words_eq_singleton_iff.1 hwords
        rw [Token.kind_word] at hkind
        simp only [List.cons_append, List.nil_append, primary, hkind]
        rfl
    | literal hkind =>
        obtain ⟨t, rfl, rfl⟩ := words_eq_singleton_iff.1 hwords
        have hkind : t.kind = .date ∨ t.kind = .time ∨ t.kind = .unit := hkind
        rcases hkind with hkind | hkind | hkind <;>
          simp only [List.cons_append, List.nil_append, primary, hkind] <;> rfl
    | day hday =>
        obtain ⟨t, rfl, rfl⟩ := words_eq_singleton_iff.1 hwords
        have hkind : t.kind = .keyword := hday.1
        have hmem : dayKeywords.contains t.text = true := List.contains_iff_mem.2 hday.2
        simp only [List.cons_append, List.nil_append, primary, hkind, hmem, if_true]
        rfl
    | shift hkind hquantity =>
        obtain ⟨t, after, rfl, rfl, hafter⟩ := words_eq_cons_iff.1 hwords
        obtain ⟨q, rfl, rfl⟩ := words_eq_singleton_iff.1 hafter
        rw [Token.kind_word] at hkind
        have hq : operand t (q :: rest) = (.ok q, rest) := operand_eq_ok_iff.2 ⟨rfl, hquantity⟩
        simp only [List.cons_append, List.nil_append, primary, hkind]
        exact Parsed.map_eq_ok_iff.2 ⟨q, hq, rfl⟩
    | operation h =>
        subst hwords
        obtain ⟨k, us, hcons, hkind⟩ := h.exists_cons
        obtain ⟨t, after, rfl, rfl, -⟩ := words_eq_cons_iff.1 hcons
        rw [Token.kind_word] at hkind
        have hop := (derived_operation _ _ _).2 ⟨t :: after, rfl, .keyword h⟩
        have hday : dayKeywords.contains t.text = false := by
          cases hday : dayKeywords.contains t.text with
          | false => rfl
          | true => exact absurd ⟨hkind, List.contains_iff_mem.1 hday⟩ h.not_isDay
        simp only [List.cons_append, primary, hkind, hday, Bool.false_eq_true, if_false]
        exact Parsed.map_eq_ok_iff.2 ⟨_, hop, rfl⟩

section Base

variable {ts rest : List Token} {start base : Expr}

/-- After the first side, either there are no dots, or there are dots and a second side. -/
theorem rangeTail_eq_ok_iff :
    rangeTail start ts = (.ok base, rest) ↔
      (ts = rest ∧ base = start ∧ ∀ t ∈ rest.head?, t.kind ≠ .range) ∨
        ∃ dots us stop, ts = dots :: us ∧ dots.kind = .range ∧
          primary us = (.ok stop, rest) ∧ base = .range start stop := by
  cases ts with
  | nil =>
      constructor
      · intro h
        cases h
        exact .inl ⟨rfl, rfl, fun t ht => by cases ht⟩
      · rintro (⟨rfl, rfl, -⟩ | ⟨dots, us, stop, hts, -⟩)
        · rfl
        · cases hts
  | cons t ts =>
      by_cases hkind : t.kind = .range
      · rw [rangeTail, if_pos hkind, Parsed.map_eq_ok_iff]
        constructor
        · rintro ⟨stop, hstop, rfl⟩
          exact .inr ⟨t, ts, stop, rfl, hkind, hstop, rfl⟩
        · rintro (⟨rfl, -, hrange⟩ | ⟨dots, us, stop, hts, -, hstop, rfl⟩)
          · exact absurd hkind (hrange t rfl)
          · obtain ⟨rfl, rfl⟩ := List.cons.inj hts
            exact ⟨stop, hstop, rfl⟩
      · rw [rangeTail, if_neg hkind]
        constructor
        · intro h
          cases h
          refine .inl ⟨rfl, rfl, ?_⟩
          intro u hu
          cases hu
          exact hkind
        · rintro (⟨rfl, rfl, -⟩ | ⟨dots, us, stop, hts, hdots, -⟩)
          · rfl
          · obtain ⟨rfl, -⟩ := List.cons.inj hts
            exact absurd hdots hkind

/-- A base is read as the grammar has it. -/
theorem isBase_of_rangeTail {mid : List Token} (hstart : primary ts = (.ok start, mid))
    (h : rangeTail start mid = (.ok base, rest)) :
    ∃ front, ts = front ++ rest ∧ IsBase (words front) (words rest) base := by
  obtain ⟨front, rfl, hfront⟩ := (derived_primary _ _ _).1 hstart
  rcases rangeTail_eq_ok_iff.1 h with ⟨rfl, rfl, -⟩ | ⟨dots, us, stop, rfl, hdots, hstop, rfl⟩
  · exact ⟨front, rfl, .single hfront⟩
  · obtain ⟨back, rfl, hback⟩ := (derived_primary _ _ _).1 hstop
    rw [words_cons, words_append] at hfront
    refine ⟨front ++ dots :: back, by simp, ?_⟩
    rw [words_append, words_cons]
    exact .range hfront hdots hback

/-- Every base of the grammar is read, unless dots follow that would go on with it. -/
theorem rangeTail_of_isBase {front : List Token} (hrest : ∀ t ∈ rest.head?, t.kind ≠ .range)
    (h : IsBase (words front) (words rest) base) :
    ∃ start mid, primary (front ++ rest) = (.ok start, mid) ∧
      rangeTail start mid = (.ok base, rest) := by
  generalize hwords : words front = ws at h
  cases h with
  | single h =>
      subst hwords
      exact ⟨base, rest, (derived_primary _ _ _).2 ⟨front, rfl, h⟩,
        rangeTail_eq_ok_iff.2 (.inl ⟨rfl, rfl, hrest⟩)⟩
  | @range _ _ _ _ start stop hstart hdots hstop =>
      obtain ⟨first, second, rfl, rfl, hsecond⟩ := words_eq_append_iff.1 hwords
      obtain ⟨t, back, rfl, rfl, rfl⟩ := words_eq_cons_iff.1 hsecond
      have hfirst : IsPrimary (words first) (words (t :: (back ++ rest))) start := by
        rw [words_cons, words_append]
        exact hstart
      have hback := (derived_primary _ _ _).2 ⟨back, rfl, hstop⟩
      exact ⟨start, t :: (back ++ rest), (derived_primary _ _ _).2 ⟨first, by simp, hfirst⟩,
        rangeTail_eq_ok_iff.2 (.inr ⟨t, back ++ rest, stop, rfl, hdots, hback, rfl⟩)⟩

end Base

/-! ### Operations one after the other -/

/-- A run of operations and a pipeline after it. -/
def IsOperations (ws : List Word) (ops : List Operation) : Prop :=
  ∃ us vs run more, ws = us ++ vs ∧ ops = run ++ more ∧ IsRun us vs run ∧ IsPipeline vs more

namespace IsOperations

variable {ws us : List Word} {op : Operation} {ops : List Operation}

/-- Where nothing is left, there are no operations. -/
theorem nil : IsOperations [] [] :=
  ⟨[], [], [], [], rfl, rfl, .nil, .nil⟩

/-- An operation before others needs no pipe. -/
theorem cons (hop : IsOperation ws us op) (h : IsOperations us ops) :
    IsOperations (ws ++ us) (op :: ops) := by
  obtain ⟨us, vs, run, more, rfl, rfl, hrun, hmore⟩ := h
  exact ⟨ws ++ us, vs, op :: run, more, (List.append_assoc ..).symm, rfl, .cons hop hrun, hmore⟩

/-- An operation before others can have a pipe. -/
theorem pipe {w : Word} (hw : w.kind = .pipe) (hop : IsOperation ws us op)
    (h : IsOperations us ops) : IsOperations (w :: (ws ++ us)) (op :: ops) := by
  obtain ⟨us, vs, run, more, rfl, rfl, hrun, hmore⟩ := h
  refine ⟨[], w :: (ws ++ us ++ vs), [], op :: run ++ more, by simp, rfl, .nil, ?_⟩
  exact .cons hw hop hrun hmore

end IsOperations

section Operations

variable {ts rest us : List Token} {op : Operation} {ops more : List Operation}

/-- What the loop reads is a run of operations and a pipeline. -/
theorem isOperations_of_operations (h : operations ts = (.ok ops, [])) :
    IsOperations (words ts) ops := by
  fun_induction operations ts generalizing ops with
  | case1 =>
      cases h
      exact .nil
  | case2 => cases h
  | case3 t ts hpipe op after hop hlt ih =>
      obtain ⟨more, hmore, rfl⟩ := Parsed.map_eq_ok_iff.1 h
      obtain ⟨front, rfl, hfront⟩ := (derived_operation _ _ _).1 hop
      rw [words_cons, words_append]
      exact .pipe hpipe hfront (ih hmore)
  | case4 => cases h
  | case5 t ts hpipe hstarts op after hop hlt ih =>
      obtain ⟨more, hmore, rfl⟩ := Parsed.map_eq_ok_iff.1 h
      obtain ⟨front, hts, hfront⟩ := (derived_operation _ _ _).1 hop
      rw [hts, words_append]
      exact .cons hfront (ih hmore)
  | case6 => cases h

/-- The loop takes an operation in front of those it reads. -/
theorem operations_of_operation (hop : operation ts = (.ok op, rest))
    (h : operations rest = (.ok ops, [])) : operations ts = (.ok (op :: ops), []) := by
  have hkind : ∃ t after, ts = t :: after ∧ t.kind ≠ .pipe ∧ startsOperation t = true := by
    unfold operation at hop
    split at hop
    · cases hop
    · rename_i t after
      refine ⟨t, after, rfl, ?_⟩
      split at hop
      · rename_i hkind
        simp [startsOperation, hkind]
      · rename_i hkind
        simp [startsOperation, hkind]
      · rename_i hkind
        simp [startsOperation, hkind]
      · cases hop
  obtain ⟨t, after, rfl, hpipe, hstarts⟩ := hkind
  rw [operations, if_neg hpipe, if_pos hstarts]
  split
  · rename_i hop'
    rw [hop] at hop'
    cases hop'
  · rename_i hop'
    rw [hop] at hop'
    cases hop'
    exact Parsed.map_eq_ok_iff.2 ⟨ops, h, rfl⟩

/-- So it does with a pipe before the operation. -/
theorem operations_of_pipe {t : Token} (ht : t.kind = .pipe) (hop : operation ts = (.ok op, rest))
    (h : operations rest = (.ok ops, [])) : operations (t :: ts) = (.ok (op :: ops), []) := by
  rw [operations, if_pos ht]
  split
  · rename_i hop'
    rw [hop] at hop'
    cases hop'
  · rename_i hop'
    rw [hop] at hop'
    cases hop'
    exact Parsed.map_eq_ok_iff.2 ⟨ops, h, rfl⟩

/-- A run in front of what the loop reads is read too. -/
theorem operations_of_isRun (hrun : IsRun (words us) (words rest) ops)
    (h : operations rest = (.ok more, [])) : operations (us ++ rest) = (.ok (ops ++ more), []) := by
  generalize hwords : words us = ws at hrun
  generalize hrest : words rest = follow at hrun
  induction hrun generalizing us with
  | nil =>
      obtain rfl := words_eq_nil_iff.1 hwords
      exact h
  | cons hop hops ih =>
      obtain ⟨front, back, rfl, rfl, rfl⟩ := words_eq_append_iff.1 hwords
      have hback := ih rfl hrest
      rw [← hrest, ← words_append] at hop
      rw [List.append_assoc]
      exact operations_of_operation ((derived_operation _ _ _).2 ⟨front, rfl, hop⟩) hback

/-- The loop reads a pipeline to its end. -/
theorem operations_of_isPipeline (h : IsPipeline (words ts) ops) :
    operations ts = (.ok ops, []) := by
  generalize hwords : words ts = ws at h
  induction h generalizing ts with
  | nil =>
      obtain rfl := words_eq_nil_iff.1 hwords
      rw [operations]
  | cons hpipe hop hops hmore ih =>
      obtain ⟨t, after, rfl, rfl, hafter⟩ := words_eq_cons_iff.1 hwords
      obtain ⟨first, vs, rfl, hfirst, rfl⟩ := words_eq_append_iff.1 hafter
      obtain ⟨front, us, rfl, rfl, rfl⟩ := words_eq_append_iff.1 hfirst
      have hrun := operations_of_isRun hops (ih rfl)
      rw [← words_append] at hop
      rw [List.append_assoc]
      exact operations_of_pipe hpipe ((derived_operation _ _ _).2 ⟨front, rfl, hop⟩) hrun

/-- The loop reads to the end exactly the runs with a pipeline behind them. -/
theorem operations_eq_ok_iff : operations ts = (.ok ops, []) ↔ IsOperations (words ts) ops := by
  constructor
  · exact isOperations_of_operations
  · rintro ⟨us, vs, run, more, hwords, rfl, hrun, hmore⟩
    obtain ⟨front, back, rfl, rfl, rfl⟩ := words_eq_append_iff.1 hwords
    exact operations_of_isRun hrun (operations_of_isPipeline hmore)

/-- Nothing that is read as operations begins with the dots of a range. -/
theorem kind_ne_range_of_operations (h : operations ts = (.ok ops, [])) :
    ∀ t ∈ ts.head?, t.kind ≠ .range := by
  intro t ht hkind
  obtain ⟨after, rfl⟩ := List.head?_eq_some_iff.1 ht
  rw [operations, if_neg (by simp [hkind]), if_neg (by simp [startsOperation, hkind])] at h
  cases h

end Operations

/-! ### Expressions -/

section Expressions

variable {ts rest : List Token} {e : Expr}

/-- An expression is read to the end exactly if the grammar derives it. -/
theorem expression_eq_ok_iff : expression ts = (.ok e, []) ↔ IsExpression (words ts) e := by
  unfold expression
  rw [Parsed.andThen_eq_ok_iff]
  constructor
  · rintro ⟨start, mid, hstart, h⟩
    obtain ⟨base, after, hbase, h⟩ := Parsed.andThen_eq_ok_iff.1 h
    obtain ⟨ops, hops, rfl⟩ := Parsed.map_eq_ok_iff.1 h
    obtain ⟨front, rfl, hfront⟩ := isBase_of_rangeTail hstart hbase
    obtain ⟨us, vs, run, more, hafter, rfl, hrun, hmore⟩ := operations_eq_ok_iff.1 hops
    rw [words_append, hafter, ← List.append_assoc]
    rw [hafter] at hfront
    exact isExpression_piped hfront hrun hmore
  · intro h
    obtain ⟨_, _, _, base, run, more, hwords, rfl, hbase, hrun, hmore⟩ := h.exists_piped
    obtain ⟨first, back, rfl, hfirst, rfl⟩ := words_eq_append_iff.1 hwords
    obtain ⟨front, us, rfl, rfl, rfl⟩ := words_eq_append_iff.1 hfirst
    have hops := operations_of_isRun hrun (operations_of_isPipeline hmore)
    rw [← words_append] at hbase
    obtain ⟨start, mid, hstart, htail⟩ :=
      rangeTail_of_isBase (kind_ne_range_of_operations hops) hbase
    rw [List.append_assoc]
    refine ⟨start, mid, hstart, ?_⟩
    exact Parsed.andThen_eq_ok_iff.2 ⟨_, _, htail, Parsed.map_eq_ok_iff.2 ⟨_, hops, rfl⟩⟩

/-- An expression is read exactly if the grammar derives it from the words. -/
theorem read_eq_ok_iff : (Expr.read ts).1 = .ok e ↔ IsExpression (words ts) e := by
  rw [← expression_eq_ok_iff]
  cases ts with
  | nil =>
      constructor
      · intro h
        cases h
      · intro h
        cases h
  | cons t ts =>
      rw [Expr.read]
      cases hread : expression (t :: ts) with
      | mk outcome rest =>
          cases outcome with
          | error error => simp [Parsed.andThen]
          | ok f => cases rest <;> simp [Parsed.andThen]

end Expressions

/-! ## Parsing -/

/-- The parser accepts exactly what the grammar derives from the words before the end of
the source, and gives back the expression that is derived. -/
theorem parseTokens_eq_ok_iff (tokens : List Token) (e : Expr) :
    parseTokens tokens = .ok e ↔
      IsExpression (words (tokens.takeWhile (·.kind ≠ .eof))) e := by
  rw [parseTokens, beforeEof, read_eq_ok_iff]

end Almanac
