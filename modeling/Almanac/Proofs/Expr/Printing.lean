import Almanac.Proofs.Token.Spacing

/-!
# Writing expressions

An expression is written as its base and its operations, each after a space or a pipe.
A pipe is needed only where a keyword would else be taken as the argument of the keyword
before it.  Whatever pipes there are, the text is the same expression again; with all of
them it is a normal form.

Main definitions:

- `Operation.text`, `Expr.text`: the text of an operation and of an expression.
- `CanFollow`: a text that can follow what has been written.
- `Writes`: a text is read as a value, whatever can follow it.

Main results:

- Theorems `writes_operation`, `writes_primary`, `writes_base`: what words derive is
  derived from the words of its text.
- Theorem `exists_canFollow`: so are operations, whatever pipes are between them.
- Theorem `parse_text`: an expression is read again from its text.
-/

namespace Almanac

open Text

variable {cs rest : List Char} {us ws follow : List Word}

/-! ## The text of an expression -/

namespace Operation

/-- Whether the name of an operation is a sign, not a keyword. -/
def isShift (o : Operation) : Bool :=
  o.op == "+" || o.op == "-"

/-- Whether an operation has no argument, but would take in a keyword after it. -/
def isOpen (o : Operation) : Bool :=
  argumentKeywords.contains o.op && o.value == ""

/-- A sign and a number, or a keyword and its argument with a space between them. -/
def text (o : Operation) : String :=
  if o.isShift = true ∨ o.value = "" then o.op ++ o.value else o.op ++ " " ++ o.value

end Operation

/-- What stands before an operation. -/
def joint (piped : Bool) : String :=
  if piped then " | " else " "

/-- The text of operations, after one that is open or not.  The operation at place `n`
has a pipe before it if `piped n` says so, or if it is a keyword after an open one. -/
def operationsText (piped : Nat → Bool) (afterOpen : Bool) : List Operation → String
  | [] => ""
  | o :: ops =>
    joint (piped 0 || (afterOpen && !o.isShift)) ++ o.text ++
      operationsText (fun n => piped (n + 1)) o.isOpen ops

namespace Expr

/-- Whether the last operation of a base is an open one. -/
def isOpen : Expr → Bool
  | operation o => o.isOpen
  | range _ stop => stop.isOpen
  | _ => false

/-- The text of an expression, with pipes where `piped` says so. -/
def text (piped : Nat → Bool) : Expr → String
  | date text => text
  | var name => name
  | operation o => o.text
  | pipe base ops => base.text piped ++ operationsText piped base.isOpen ops
  | range start stop => start.text piped ++ " ... " ++ stop.text piped
  | transform start stop => start.text piped ++ ", " ++ stop.text piped

/-- The text of a base comes before that of the operations on it. -/
theorem text_piped (piped : Nat → Bool) (base : Expr) (ops : List Operation) :
    (base.piped ops).text piped = base.text piped ++ operationsText piped base.isOpen ops := by
  cases ops with
  | nil => exact String.append_empty.symm
  | cons o ops => rfl

end Expr

/-! ## What can follow -/

/-- A text that can follow what has been written.  It goes on with no word, not even a
date; and where a keyword without its argument stands before it, with no argument. -/
structure CanFollow (isOpen : Bool) (rest : List Char) (us : List Word) : Prop
    extends EndsDate rest where
  scans : Scans rest us
  isValid : ∀ w ∈ us, w.IsValid
  not_argument : isOpen = true → ∀ w ∈ us.head?, ¬ w.IsArgument

/-- A text is read as a value that a relation derives, whatever can follow it. -/
def Writes {α : Type} (relation : List Word → List Word → α → Prop) (text : String)
    (isOpen : Bool) (a : α) : Prop :=
  ∀ rest us, CanFollow isOpen rest us →
    ∃ ws, Scans (text.toList ++ rest) (ws ++ us) ∧ (∀ w ∈ ws, w.IsValid) ∧ relation ws us a

/-- Some words derive a value. -/
def Derivable {α : Type} (relation : List Word → List Word → α → Prop) (a : α) : Prop :=
  ∃ ws follow, (∀ w ∈ ws, w.IsValid) ∧ relation ws follow a

/-- A text that is read as one relation says is read as any weaker one says. -/
theorem Writes.imp {α β : Type} {r : List Word → List Word → α → Prop}
    {s : List Word → List Word → β → Prop} {text : String} {isOpen : Bool} {a : α} {b : β}
    (h : Writes r text isOpen a) (hrs : ∀ ws us, r ws us a → s ws us b) :
    Writes s text isOpen b := by
  intro rest us hrest
  obtain ⟨ws, hscans, hvalid, hr⟩ := h rest us hrest
  exact ⟨ws, hscans, hvalid, hrs ws us hr⟩

/-- The end of the text can follow anything. -/
theorem CanFollow.nil {isOpen : Bool} : CanFollow isOpen [] [] where
  toEndsDate := EndsDate.nil
  scans := Scans.nil
  isValid := fun _ hw => absurd hw List.not_mem_nil
  not_argument := fun _ _ hw => by cases hw

/-- A word between spaces can follow anything, if it is no argument and no date goes on
with it. -/
theorem CanFollow.spaced {w : Word} {isOpen : Bool} (hw : w.IsValid) (hdate : w.kind ≠ .date)
    (hargument : ¬ w.IsArgument) (hends : EndsDate (' ' :: (w.text.toList ++ ' ' :: cs)))
    (h : Scans cs ws) (hws : ∀ v ∈ ws, v.IsValid) :
    CanFollow isOpen (' ' :: (w.text.toList ++ ' ' :: cs)) (w :: ws) where
  toEndsDate := hends
  scans := (h.space.word hw (EndsWord.cons rfl cs) fun hkind => absurd hkind hdate).space
  isValid := List.forall_mem_cons.2 ⟨hw, hws⟩
  not_argument := by
    rintro - v ⟨⟩
    exact hargument

/-- The text of a word is read as that word. -/
theorem writes_word {w : Word} {isOpen : Bool} (hw : w.IsValid) :
    Writes (fun ws _ v => ws = [v]) w.text isOpen w := by
  intro rest us hrest
  have hscans := hrest.scans.word hw hrest.toEndsWord fun _ => hrest.toEndsDate
  exact ⟨[w], hscans, List.forall_mem_singleton.2 hw, rfl⟩

/-! ## Signs and numbers -/

/-- A sign and a number are one word, unless the number has a sign of its own. -/
inductive IsSigned (sign : Char) : List Word → List Word → Word → Prop
  | glued {q : Word} {follow : List Word} :
      IsSigned sign [⟨.unit, String.ofList (sign :: q.text.toList)⟩] follow q
  | apart {q : Word} {follow : List Word} :
      IsSigned sign [⟨.operator, String.singleton sign⟩, q] follow q

section Signs

variable {sign : Char} {q : Word} {isOpen : Bool}

/-- The words that are operators are the two signs. -/
theorem exists_sign {w : Word} (hw : w.IsValid) (hkind : w.kind = .operator) :
    ∃ sign, IsSign sign ∧ w.text = String.singleton sign := by
  have hshape := hw.shape
  rw [hkind] at hshape
  generalize htext : w.text.toList = text at hshape
  cases hshape with
  | operator hsign => exact ⟨_, hsign, String.toList_inj.1 (by simpa using htext)⟩

/-- What stands after the sign of a number is a number. -/
theorem exists_quantity {value : List Char} (hsign : IsSign sign)
    (h : Shape .unit (sign :: value)) :
    ∃ q : Word, q.IsValid ∧ q.IsQuantity ∧ q.text = String.ofList value := by
  generalize htext : sign :: value = text at h
  cases h with
  | @unsigned digits letter hdigits hletter =>
      obtain ⟨c, digits, rfl⟩ := List.exists_cons_of_ne_nil hdigits.ne_nil
      obtain ⟨rfl, -⟩ := List.cons.inj htext
      have hc := hdigits.isDigit sign (List.mem_cons_self ..)
      rcases hsign with rfl | rfl <;> cases hc
  | signed hsign' hdigits hunit =>
      obtain ⟨-, rfl⟩ := List.cons.inj htext
      rcases hunit with rfl | ⟨letter, hletter, rfl⟩
      · rw [List.append_nil]
        exact ⟨_, isValid_ofList (.number hdigits) nofun, .inr rfl, rfl⟩
      · exact ⟨_, isValid_ofList (.unsigned hdigits hletter) nofun, .inl rfl, rfl⟩

/-- A sign makes one word with a number, or the number has a sign of its own. -/
theorem shape_sign_or (hsign : IsSign sign) (hq : q.IsValid) (hquantity : q.IsQuantity) :
    Shape .unit (sign :: q.text.toList) ∨
      ∀ rest, (q.text.toList ++ rest).head?.any Char.isDigit = false := by
  have hshape := hq.shape
  generalize q.text.toList = text at hshape
  rcases hquantity with hkind | hkind
  · rw [hkind] at hshape
    cases hshape with
    | unsigned hdigits hletter => exact .inl (.signed hsign hdigits (.inr ⟨_, hletter, rfl⟩))
    | signed hown hdigits hunit =>
        right
        intro rest
        rcases hown with rfl | rfl <;> rfl
  · rw [hkind] at hshape
    cases hshape with
    | @number digits hdigits =>
        left
        simpa using Shape.signed hsign hdigits (.inl rfl)

/-- A sign and a number are one word or two, whichever the tokenizer makes of them. -/
theorem writes_signed (hsign : IsSign sign) (hq : q.IsValid) (hquantity : q.IsQuantity) :
    Writes (IsSigned sign) (String.singleton sign ++ q.text) isOpen q := by
  intro rest us hrest
  -- A sign goes on with the digits after it, but not with another sign.
  rcases shape_sign_or hsign hq hquantity with hshape | hhead
  · have hw := isValid_ofList hshape nofun
    obtain ⟨ws, hscans, hvalid, rfl⟩ := writes_word hw rest us hrest
    exact ⟨_, by simpa using hscans, hvalid, .glued⟩
  · have hw : Word.IsValid ⟨.operator, String.singleton sign⟩ :=
      ⟨by simpa using Shape.operator hsign, nofun⟩
    obtain ⟨ws, hscans, hvalid, rfl⟩ := writes_word hq rest us hrest
    have htext : (String.singleton sign).toList = [sign] := String.toList_singleton sign
    obtain ⟨hblank, hread⟩ := Lexeme.read_sign hsign (q.text.toList ++ rest)
    have hsigned : Lexeme.signed sign (q.text.toList ++ rest) =
        ⟨.operator, (String.singleton sign).toList, q.text.toList ++ rest⟩ := by
      rw [Lexeme.signed, hhead rest, htext]
      rfl
    have hscans := Scans.of_read hw htext hblank (hread.trans (congrArg Except.ok hsigned)) hscans
    rw [String.toList_append, List.append_assoc]
    exact ⟨[_, q], hscans, List.forall_mem_cons.2 ⟨hw, hvalid⟩, .apart⟩

/-- One word or two, a sign and a number are the same shift. -/
theorem IsSigned.isOperation (hsign : IsSign sign) (hquantity : q.IsQuantity)
    (h : IsSigned sign ws follow q) :
    IsOperation ws follow { op := String.singleton sign, value := q.text } := by
  cases h with
  | glued =>
      have htext : (Word.mk .unit (String.ofList (sign :: q.text.toList))).text.toList =
          sign :: q.text.toList := String.toList_ofList
      simpa using IsOperation.signed rfl hsign htext
  | apart => exact .shift rfl hquantity

/-- One word or two, a sign and a number are the same date. -/
theorem IsSigned.isPrimary (hquantity : q.IsQuantity) (h : IsSigned sign ws follow q) :
    IsPrimary ws follow (.date (String.singleton sign ++ q.text)) := by
  cases h with
  | glued =>
      have htext : String.singleton sign ++ q.text = String.ofList (sign :: q.text.toList) :=
        String.toList_inj.1 (by simp)
      rw [htext]
      exact .literal (.inr (.inr rfl))
  | apart => exact .shift rfl hquantity

end Signs

/-! ## Operations -/

/-- Keywords consist of letters, and are neither abbreviations of zones nor signs. -/
theorem letters_keywords : ∀ k ∈ keywords, k.toList.all Char.isAlpha = true ∧
    Zone.isAbbreviation k.toList = false ∧ k ≠ "+" ∧ k ≠ "-" := by
  decide +kernel

/-- No date goes on with a keyword. -/
theorem endsDate_keyword {k : String} (hk : k ∈ keywords) (hrest : EndsWord rest) :
    EndsDate (' ' :: (k.toList ++ rest)) := by
  obtain ⟨hletters, habbreviation, -⟩ := letters_keywords k hk
  have hall : ∀ c ∈ k.toList, c.isAlpha = true := List.all_eq_true.1 hletters
  have htake : (k.toList ++ rest).takeWhile Char.isAlpha = k.toList :=
    takeWhile_append_of_head hall (hrest.head_any rfl)
  refine EndsDate.space ?_ (by rw [htake, habbreviation])
  obtain ⟨c, hc, halpha⟩ := (Option.any_eq_true _ _).1 (isName_keywords k hk).1
  rw [List.head?_append, hc]
  cases hdigit : c.isDigit with
  | false => exact hdigit
  | true =>
      rw [isAlpha_of_isDigit hdigit] at halpha
      cases halpha

namespace Operation

variable {k value : String}

theorem isShift_keyword (hk : k ∈ keywords) : isShift ⟨k, value⟩ = false := by
  obtain ⟨-, -, hplus, hminus⟩ := letters_keywords k hk
  simp [isShift, hplus, hminus]

/-- The text of a keyword with an argument. -/
theorem text_argument (hk : k ∈ keywords) (hvalue : value ≠ "") :
    text ⟨k, value⟩ = k ++ " " ++ value := by
  simp [text, isShift_keyword hk, hvalue]

theorem text_bare : text ⟨k, ""⟩ = k := by
  simp [text]

/-- The text of an operation with a keyword begins with that keyword. -/
theorem exists_text (hk : k ∈ keywords) (value : String) :
    ∃ after, EndsWord after ∧ (text ⟨k, value⟩).toList = k.toList ++ after := by
  by_cases hvalue : value = ""
  · refine ⟨[], EndsWord.nil, ?_⟩
    rw [hvalue, text_bare, List.append_nil]
  · refine ⟨' ' :: value.toList, EndsWord.cons rfl _, ?_⟩
    rw [text_argument hk hvalue]
    simp

/-- The text of a shift. -/
theorem text_signed {sign : Char} (hsign : IsSign sign) :
    text ⟨String.singleton sign, value⟩ = String.singleton sign ++ value := by
  rcases hsign with rfl | rfl <;> exact if_pos (.inl rfl)

end Operation

theorem Word.IsValid.text_ne_empty {w : Word} (hw : w.IsValid) : w.text ≠ "" := by
  intro h
  exact hw.shape.ne_nil (by rw [h]; rfl)

/-- A date is no argument of a keyword. -/
theorem Word.IsArgument.kind_ne_date {w : Word} (h : w.IsArgument) : w.kind ≠ .date := by
  intro hkind
  rw [Word.IsArgument, hkind] at h
  rcases h with h | h | h <;> cases h

section Operations

variable {o : Operation} {ops : List Operation} {isOpen : Bool}

/-- An operation that begins with a keyword is named by it. -/
theorem IsKeywordOperation.op_mem_keywords (hws : ∀ w ∈ ws, w.IsValid)
    (h : IsKeywordOperation ws follow o) : o.op ∈ keywords := by
  cases h with
  | withArgument hk ha => exact (hws _ (List.mem_cons_self ..)).keyword hk.1
  | bare hk hfollow => exact (hws _ (List.mem_cons_self ..)).keyword hk.1
  | boundary hk => exact (hws _ (List.mem_cons_self ..)).keyword hk.1

/-- The text of an operation with a keyword is read as that operation. -/
theorem writes_keywordOperation (hws : ∀ w ∈ ws, w.IsValid)
    (h : IsKeywordOperation ws follow o) : Writes IsKeywordOperation o.text o.isOpen o := by
  intro rest us hrest
  cases h with
  | @withArgument k a _ hk ha =>
      have hkvalid := hws k (List.mem_cons_self ..)
      have havalid := hws a (List.mem_cons_of_mem k (List.mem_cons_self ..))
      have hargument := hrest.scans.word havalid hrest.toEndsWord fun hkind =>
        absurd hkind ha.kind_ne_date
      have hscans := hargument.space.word hkvalid (EndsWord.cons rfl _) fun hkind =>
        absurd (hk.1.symm.trans hkind) nofun
      refine ⟨[k, a], ?_, hws, .withArgument hk ha⟩
      rw [Operation.text_argument (hkvalid.keyword hk.1) havalid.text_ne_empty]
      simpa using hscans
  | @bare k _ hk hfollow =>
      have hopen : Operation.isOpen ⟨k.text, ""⟩ = true := by
        have hmem : argumentKeywords.contains k.text = true := List.contains_iff_mem.2 hk.2
        rw [Operation.isOpen, hmem]
        rfl
      obtain ⟨ws, hscans, hvalid, rfl⟩ := writes_word (hws k (List.mem_cons_self ..)) rest us hrest
      rw [Operation.text_bare]
      exact ⟨[k], hscans, hvalid, .bare hk (hrest.not_argument hopen)⟩
  | @boundary k _ hk =>
      obtain ⟨ws, hscans, hvalid, rfl⟩ := writes_word (hws k (List.mem_cons_self ..)) rest us hrest
      rw [Operation.text_bare]
      exact ⟨[k], hscans, hvalid, .boundary hk⟩

/-- An operation is a shift by a number, or has a keyword. -/
theorem IsOperation.signed_or_keyword (hws : ∀ w ∈ ws, w.IsValid)
    (h : IsOperation ws follow o) :
    (∃ sign q, IsSign sign ∧ Word.IsValid q ∧ q.IsQuantity ∧
        o = { op := String.singleton sign, value := q.text }) ∨
      IsKeywordOperation ws follow o := by
  cases h with
  | @shift s q _ hkind hquantity =>
      obtain ⟨sign, hsign, htext⟩ := exists_sign (hws s (List.mem_cons_self ..)) hkind
      have hq := hws q (List.mem_cons_of_mem s (List.mem_cons_self ..))
      exact .inl ⟨sign, q, hsign, hq, hquantity, by rw [htext]⟩
  | @signed w sign value _ hkind hsign htext =>
      have hshape := (hws w (List.mem_cons_self ..)).shape
      rw [hkind, htext] at hshape
      obtain ⟨q, hq, hquantity, hvalue⟩ := exists_quantity hsign hshape
      exact .inl ⟨sign, q, hsign, hq, hquantity, by rw [hvalue]⟩
  | @unsigned w _ hkind hsign =>
      exact .inl ⟨'+', w, .inl rfl, hws w (List.mem_cons_self ..), .inl hkind, rfl⟩
  | keyword h => exact .inr h

/-- The text of an operation is read as that operation. -/
theorem writes_operation (h : Derivable IsOperation o) :
    Writes IsOperation o.text o.isOpen o := by
  obtain ⟨ws, follow, hws, h⟩ := h
  rcases h.signed_or_keyword hws with ⟨sign, q, hsign, hq, hquantity, rfl⟩ | h
  · rw [Operation.text_signed hsign]
    exact (writes_signed hsign hq hquantity).imp fun ws us h => h.isOperation hsign hquantity
  · exact (writes_keywordOperation hws h).imp fun ws us h => .keyword h

/-- No date goes on with an operation. -/
theorem endsDate_operation (h : Derivable IsOperation o) (hrest : EndsWord rest) :
    EndsDate (' ' :: (o.text.toList ++ rest)) := by
  obtain ⟨ws, follow, hws, h⟩ := h
  rcases h.signed_or_keyword hws with ⟨sign, q, hsign, -, -, rfl⟩ | h
  · rw [Operation.text_signed hsign, String.toList_append, String.toList_singleton]
    rcases hsign with rfl | rfl <;> exact EndsDate.space_of_head rfl rfl
  · have hk := h.op_mem_keywords hws
    obtain ⟨value, hvalue, htext⟩ := Operation.exists_text hk o.value
    rw [htext, List.append_assoc]
    refine endsDate_keyword hk ⟨?_⟩
    intro c hc
    rw [List.head?_append, Option.mem_def, Option.or_eq_some_iff] at hc
    rcases hc with hc | ⟨-, hc⟩
    · exact hvalue.blank c hc
    · exact hrest.blank c hc

/-- A shift does not begin with the argument of a keyword. -/
theorem IsOperation.not_argument (hws : ∀ w ∈ ws, w.IsValid) (h : IsOperation ws us o)
    (ho : o.isShift = true) : ∀ w ∈ (ws ++ us).head?, ¬ w.IsArgument := by
  have hkind {w : Word} {after : List Word} (hw : w.kind = .operator ∨ w.kind = .unit) :
      ∀ v ∈ (w :: after).head?, ¬ v.IsArgument := by
    rintro v ⟨⟩
    simp only [Word.IsArgument]
    rcases hw with hw | hw <;> simp [hw]
  cases h with
  | shift hsign hquantity => exact hkind (.inl hsign)
  | signed hw hsign htext => exact hkind (.inr hw)
  | unsigned hw hsign => exact hkind (.inr hw)
  | keyword h =>
      have hkeyword : o.isShift = false := Operation.isShift_keyword (h.op_mem_keywords hws)
      rw [hkeyword] at ho
      cases ho

/-! ## Operations one after the other -/

/-- The operations of a run are operations of the grammar. -/
theorem derivable_of_isRun (h : IsRun ws follow ops) (hws : ∀ w ∈ ws, w.IsValid) :
    ∀ o ∈ ops, Derivable IsOperation o := by
  induction h with
  | nil => exact fun o ho => absurd ho List.not_mem_nil
  | cons hop hops ih =>
      obtain ⟨hfirst, hmore⟩ := List.forall_mem_append.1 hws
      exact List.forall_mem_cons.2 ⟨⟨_, _, hfirst, hop⟩, ih hmore⟩

/-- So are those of a pipeline. -/
theorem derivable_of_isPipeline (h : IsPipeline ws ops) (hws : ∀ w ∈ ws, w.IsValid) :
    ∀ o ∈ ops, Derivable IsOperation o := by
  induction h with
  | nil => exact fun o ho => absurd ho List.not_mem_nil
  | cons hpipe hop hops hmore ih =>
      obtain ⟨hrun, hlast⟩ := List.forall_mem_append.1 (List.forall_mem_cons.1 hws).2
      obtain ⟨hfirst, hnext⟩ := List.forall_mem_append.1 hrun
      have hrest := derivable_of_isRun hops hnext
      refine List.forall_mem_append.2 ⟨?_, ih hlast⟩
      exact List.forall_mem_cons.2 ⟨⟨_, _, hfirst, hop⟩, hrest⟩

/-- Operations are read again from their text, whatever pipes are between them. -/
theorem exists_canFollow (piped : Nat → Bool) (afterOpen : Bool)
    (hops : ∀ o ∈ ops, Derivable IsOperation o) :
    ∃ us, CanFollow afterOpen (operationsText piped afterOpen ops).toList us ∧
      IsOperations us ops := by
  induction ops generalizing piped afterOpen with
  | nil => exact ⟨[], CanFollow.nil, IsOperations.nil⟩
  | cons o ops ih =>
      obtain ⟨ho, hmore⟩ := List.forall_mem_cons.1 hops
      -- What comes later is written first, since `o` is read with the words after it.
      obtain ⟨us, hus, hrest⟩ := ih (fun n => piped (n + 1)) o.isOpen hmore
      obtain ⟨ws, hscans, hws, hop⟩ := writes_operation ho _ us hus
      have hvalid : ∀ w ∈ ws ++ us, w.IsValid := List.forall_mem_append.2 ⟨hws, hus.isValid⟩
      simp only [operationsText, String.toList_append, List.append_assoc]
      cases hpiped : piped 0 || (afterOpen && !o.isShift) with
      | true =>
          have hpipe : Word.IsValid ⟨.pipe, "|"⟩ := ⟨Shape.pipe, nofun⟩
          refine ⟨⟨.pipe, "|"⟩ :: (ws ++ us), ?_, IsOperations.pipe rfl hop hrest⟩
          exact CanFollow.spaced hpipe nofun (by simp [Word.IsArgument])
            (EndsDate.space_of_head rfl rfl) hscans hvalid
      | false =>
          -- Without a pipe, only a shift can stand after an open operation.
          have hshift : afterOpen = true → o.isShift = true := by
            intro hopen
            simpa [hopen] using (Bool.or_eq_false_iff.1 hpiped).2
          refine ⟨ws ++ us, ?_, IsOperations.cons hop hrest⟩
          exact {
            toEndsDate := endsDate_operation ho hus.toEndsWord
            scans := hscans.space
            isValid := hvalid
            not_argument := fun hopen => hop.not_argument hws (hshift hopen) }

end Operations

/-! ## Primaries and ranges -/

section Base

variable {e base : Expr} (piped : Nat → Bool)

/-- The text of a date in its place is read as that date. -/
theorem writes_primary (h : Derivable IsPrimary e) :
    Writes IsPrimary (e.text piped) e.isOpen e := by
  obtain ⟨ws, follow, hws, h⟩ := h
  cases h with
  | @var w _ hw =>
      have hvalid := hws w (List.mem_cons_self ..)
      exact (writes_word hvalid).imp fun ws us h => h ▸ IsPrimary.var hw
  | @literal w _ hw =>
      have hvalid := hws w (List.mem_cons_self ..)
      exact (writes_word hvalid).imp fun ws us h => h ▸ IsPrimary.literal hw
  | @day w _ hw =>
      have hvalid := hws w (List.mem_cons_self ..)
      exact (writes_word hvalid).imp fun ws us h => h ▸ IsPrimary.day hw
  | @shift s q _ hkind hquantity =>
      obtain ⟨sign, hsign, htext⟩ := exists_sign (hws s (List.mem_cons_self ..)) hkind
      have hq := hws q (List.mem_cons_of_mem s (List.mem_cons_self ..))
      rw [htext]
      exact (writes_signed hsign hq hquantity).imp fun ws us h => h.isPrimary hquantity
  | operation h => exact (writes_keywordOperation hws h).imp fun ws us h => .operation h

/-- The text of a range or of one date is read as it. -/
theorem writes_base (h : Derivable IsBase base) :
    Writes IsBase (base.text piped) base.isOpen base := by
  obtain ⟨ws, follow, hws, h⟩ := h
  cases h with
  | single h =>
      exact (writes_primary piped ⟨ws, follow, hws, h⟩).imp fun ws us h => .single h
  | @range first second _ dots start stop hstart hdots hstop =>
      intro rest us hrest
      obtain ⟨hfirst, hmore⟩ := List.forall_mem_append.1 hws
      obtain ⟨vs, hscans, hvs, hstop⟩ := writes_primary piped
        ⟨second, follow, (List.forall_mem_cons.1 hmore).2, hstop⟩ rest us hrest
      have hrange : Word.IsValid ⟨.range, "..."⟩ := ⟨Shape.range, nofun⟩
      have hfollow : CanFollow start.isOpen
          (' ' :: ("...".toList ++ ' ' :: ((stop.text piped).toList ++ rest)))
          (⟨.range, "..."⟩ :: (vs ++ us)) :=
        CanFollow.spaced hrange nofun (by simp [Word.IsArgument]) (EndsDate.space_of_head rfl rfl)
          hscans (List.forall_mem_append.2 ⟨hvs, hrest.isValid⟩)
      obtain ⟨ws, hscans, hws, hstart⟩ := writes_primary piped
        ⟨first, _, hfirst, hstart⟩ _ _ hfollow
      refine ⟨ws ++ ⟨.range, "..."⟩ :: vs, ?_, ?_, .range hstart rfl hstop⟩
      · simpa [Expr.text] using hscans
      · exact List.forall_mem_append.2 ⟨hws, List.forall_mem_cons.2 ⟨hrange, hvs⟩⟩

end Base

/-! ## Expressions -/

/-- An expression that is read is read again from its text, whatever pipes it has. -/
theorem parse_text_of_parse {source : String} {e : Expr} (h : parse source = .ok e)
    (piped : Nat → Bool) : parse (e.text piped) = .ok e := by
  obtain ⟨ws, hvalid, hexpr⟩ := exists_words_of_parse h
  obtain ⟨ws, us, vs, base, ops, more, rfl, rfl, hbase, hops, hmore⟩ := hexpr.exists_piped
  obtain ⟨hfirst, hvs⟩ := List.forall_mem_append.1 hvalid
  obtain ⟨hws, hus⟩ := List.forall_mem_append.1 hfirst
  have hall : ∀ o ∈ ops ++ more, Derivable IsOperation o :=
    List.forall_mem_append.2 ⟨derivable_of_isRun hops hus, derivable_of_isPipeline hmore hvs⟩
  obtain ⟨tail, htail, hrest⟩ := exists_canFollow piped base.isOpen hall
  obtain ⟨front, hscans, hfront, hbase⟩ := writes_base piped ⟨ws, _, hws, hbase⟩ _ _ htail
  have hwords : ∀ w ∈ front ++ tail, w.IsValid :=
    List.forall_mem_append.2 ⟨hfront, htail.isValid⟩
  rw [parse, Expr.text_piped, String.toList_append, hscans.parseChars_eq_ok_iff hwords]
  obtain ⟨us, vs, ops, more, rfl, hsplit, hrun, hpipeline⟩ := hrest
  rw [hsplit, ← List.append_assoc]
  exact isExpression_piped hbase hrun hpipeline

/-- An expression is read again from its text, wherever a pipe is written that could be
left out.  The text with all pipes tells expressions apart. -/
theorem parse_text {source : String} {e : Expr} (h : parse source = .ok e) :
    (∀ piped, parse (e.text piped) = .ok e) ∧
      ∀ source' e', parse source' = .ok e' →
        (e.text (fun _ => true) = e'.text (fun _ => true) ↔ e = e') := by
  refine ⟨parse_text_of_parse h, ?_⟩
  intro source' e' h'
  constructor
  · intro htext
    have hread := parse_text_of_parse h fun _ => true
    rw [htext, parse_text_of_parse h' fun _ => true] at hread
    exact (Except.ok.inj hread).symm
  · exact fun he => he ▸ rfl

/-- A keyword after an open one keeps its pipe, and a number its two signs. -/
theorem parse_text_round :
    ∃ e, parse "2024-01-15 10:30 | Round | startofmonth  + -1d" = .ok e ∧
      e.text (fun _ => false) = "2024-01-15 10:30 round | startofmonth +-1d" ∧
      e.text (fun _ => true) = "2024-01-15 10:30 | round | startofmonth | +-1d" ∧
      (∀ piped, parse (e.text piped) = .ok e) ∧
      ∀ source' e', parse source' = .ok e' →
        (e.text (fun _ => true) = e'.text (fun _ => true) ↔ e = e') := by
  have hparse : parse "2024-01-15 10:30 | Round | startofmonth  + -1d" =
      .ok (.pipe (.date "2024-01-15 10:30")
        [⟨"round", ""⟩, ⟨"startofmonth", ""⟩, ⟨"+", "-1d"⟩]) := by
    decide +kernel
  exact ⟨_, hparse, by decide +kernel, by decide +kernel, parse_text hparse⟩

end Almanac
