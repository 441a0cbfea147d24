import Almanac.Proofs.Token.Word

/-!
# Where the tokens of a text stand

The tokens of a text, with the blanks before each of them, are the whole text.  So no
character is lost, and none is in two tokens.

Main definitions:

- `Word.IsValid`: a word as tokens show it.
- `Layout`: blanks and tokens by turns, up to the end of the text.
- `Lossless`: what it means for tokens to be at their places in a text.

Main results:

- Theorem `layout_of_tokensFrom`: the tokens of a text are laid out over it.
- Theorem `Layout.lossless`: what is laid out over a text is at its places.
- Theorem `Layout.isValid`: every token but the last says a word.
-/

namespace Almanac

open Text

variable {cs gap rest text : List Char} {pos : Nat} {kind : TokenKind} {tokens : List Token}

/-- Where two texts are put together, a character stands in the first or in the second. -/
theorem exists_of_append_eq_append_cons {a b before after : List Char} {c : Char}
    (h : a ++ b = before ++ c :: after) :
    (∃ inner, a = before ++ c :: inner) ∨
      ∃ inner, before = a ++ inner ∧ b = inner ++ c :: after := by
  rcases List.append_eq_append_iff.1 h with hlater | ⟨inner, ha, hinner⟩
  · exact .inr hlater
  · cases inner with
    | nil => exact .inr ⟨[], by simpa using ha.symm, hinner.symm⟩
    | cons d inner =>
        obtain ⟨rfl, -⟩ := List.cons.inj hinner
        exact .inl ⟨inner, ha⟩

/-! ## Bytes -/

/-- The bytes of a text are those of its characters. -/
theorem byteLength_toList (source : String) : byteLength source.toList = source.utf8ByteSize := by
  have hlist (cs : List Char) : byteLength cs = String.utf8Len cs := by
    induction cs with
    | nil => rfl
    | cons c cs ih => rw [byteLength, ih, String.utf8Len, Nat.add_comm]
  rw [hlist, ← String.utf8ByteSize_ofList, String.ofList_toList]

/-- Characters take up bytes. -/
theorem byteLength_pos (h : cs ≠ []) : 0 < byteLength cs := by
  obtain ⟨c, cs, rfl⟩ := List.exists_cons_of_ne_nil h
  have := c.utf8Size_pos
  rw [byteLength]
  omega

/-- A small letter takes as many bytes as its capital. -/
theorem utf8Size_toLower (c : Char) : c.toLower.utf8Size = c.utf8Size := by
  by_cases hupper : c.isUpper = true
  · have hbounds : 65 ≤ c.toNat ∧ c.toNat ≤ 90 := by
      simpa [Char.isUpper, UInt32.le_iff_toNat_le] using hupper
    have hone (d : Char) (hd : d.toNat ≤ 127) : d.utf8Size = 1 :=
      Char.utf8Size_eq_one_iff.2 (UInt32.le_iff_toNat_le.2 hd)
    have hlower : c.toLower.toNat = c.toNat + 32 := by
      rw [Char.toLower_eq_of_isUpper hupper, Char.toNat_ofNat, if_pos (.inl (by omega))]
    rw [hone c (by omega), hone c.toLower (by omega)]
  · rw [Char.toLower_eq_of_not_isUpper hupper]

/-- Lower case takes up as many bytes. -/
theorem byteLength_map_toLower (cs : List Char) :
    byteLength (cs.map Char.toLower) = byteLength cs := by
  induction cs with
  | nil => rfl
  | cons c cs ih => rw [List.map_cons, byteLength, byteLength, utf8Size_toLower, ih]

/-! ## The text of a token -/

/-- The text that a token of a kind has where the source has `text`. -/
def shownText (kind : TokenKind) (text : List Char) : List Char :=
  if kind = .keyword then text.map Char.toLower else text

/-- The text of a token takes up as many bytes as the source that it was read from. -/
theorem byteLength_shownText (kind : TokenKind) (text : List Char) :
    byteLength (shownText kind text) = byteLength text := by
  rw [shownText]
  split
  · exact byteLength_map_toLower text
  · rfl

/-- No token is without text. -/
theorem Shape.ne_nil (h : Shape kind text) : text ≠ [] := by
  obtain ⟨c, after, rfl, -⟩ := Lexeme.read_of_shape h EndsWord.nil fun _ => EndsDate.nil
  exact List.cons_ne_nil c after

/-- A word as tokens show it: it has the shape of its kind, and a keyword is in small
letters. -/
structure Word.IsValid (w : Word) : Prop where
  shape : Shape w.kind w.text.toList
  keyword : w.kind = .keyword → w.text ∈ keywords

/-- Keywords are names in lower case. -/
theorem isName_keywords : ∀ k ∈ keywords,
    k.toList.head?.any Char.isAlpha = true ∧ k.toList.all Char.isAlphanum = true ∧
      k.toList.map Char.toLower = k.toList := by
  decide +kernel

/-- Every keyword is a word. -/
theorem isValid_keyword {k : String} (hk : k ∈ keywords) :
    Word.IsValid { kind := .keyword, text := k } where
  shape := by
    obtain ⟨hhead, hall, hsmall⟩ := isName_keywords k hk
    have hkeyword : namesKeyword k.toList = true := by
      rw [namesKeyword, hsmall, String.ofList_toList]
      exact List.contains_iff_mem.2 hk
    obtain ⟨c, hc, halpha⟩ := (Option.any_eq_true _ _).1 hhead
    obtain ⟨name, htext⟩ := List.head?_eq_some_iff.1 hc
    refine Shape.keyword ⟨c, name, htext, halpha, ?_⟩ hkeyword
    intro d hd
    exact List.all_eq_true.1 hall d (htext ▸ List.mem_cons_of_mem c hd)
  keyword := fun _ => hk

/-- A text of any other kind is a word as it stands. -/
theorem isValid_ofList (h : Shape kind text) (hkind : kind ≠ .keyword) :
    Word.IsValid { kind := kind, text := String.ofList text } where
  shape := by rwa [String.toList_ofList]
  keyword := fun h => absurd h hkind

/-- What a token shows is a word. -/
theorem isValid_shownText (h : Shape kind text) :
    Word.IsValid { kind := kind, text := String.ofList (shownText kind text) } := by
  rw [shownText]
  split
  · rename_i hkind
    subst hkind
    cases h with
    | keyword htext hkeyword => exact isValid_keyword (List.contains_iff_mem.1 hkeyword)
  · rename_i hkind
    exact isValid_ofList h hkind

/-- A word shows itself. -/
theorem Word.IsValid.shownText_eq {w : Word} (h : w.IsValid) :
    shownText w.kind w.text.toList = w.text.toList := by
  rw [shownText]
  split
  · rename_i hkind
    exact (isName_keywords _ (h.keyword hkind)).2.2
  · rfl

/-! ## Layouts -/

/-- From byte `pos` on, a text consists of blanks and tokens by turns, up to its end. -/
inductive Layout : Nat → List Char → List Token → Prop
  | done {pos : Nat} {gap : List Char} (hgap : ∀ c ∈ gap, isAsciiBlank c = true) :
      Layout pos gap [{ kind := .eof, text := "", pos := pos + byteLength gap }]
  | token {pos : Nat} {gap text rest : List Char} {kind : TokenKind} {tokens : List Token}
      (hgap : ∀ c ∈ gap, isAsciiBlank c = true) (hshape : Shape kind text)
      (htail : Layout (pos + byteLength gap + byteLength text) rest tokens) :
      Layout pos (gap ++ (text ++ rest))
        ({ kind := kind
           text := String.ofList (shownText kind text)
           pos := pos + byteLength gap } :: tokens)

/-- The tokens of a text are laid out over it. -/
theorem layout_of_tokensFrom (h : tokensFrom pos cs = .ok tokens) : Layout pos cs tokens := by
  have hgap (cs : List Char) : ∀ c ∈ cs.takeWhile isAsciiBlank, isAsciiBlank c = true :=
    fun c hc => List.mem_takeWhile_imp hc
  fun_induction tokensFrom pos cs generalizing tokens with
  | case1 pos cs start =>
      rename_i hrest
      cases h
      have hcs : cs.takeWhile isAsciiBlank = cs := by
        have happend := List.takeWhile_append_dropWhile (p := isAsciiBlank) (l := cs)
        rwa [hrest, List.append_nil] at happend
      have hlayout : Layout pos _ _ := Layout.done (hgap cs)
      rw [hcs] at hlayout
      simpa only [start, hcs] using hlayout
  | case2 => cases h
  | case3 => cases h
  | case4 pos cs start c rest hrest l hread hlt tail htail =>
      rename_i ih
      cases h
      have hcs : cs = cs.takeWhile isAsciiBlank ++ (l.text ++ l.rest) := by
        rw [(Lexeme.read_append hread).1, ← hrest, List.takeWhile_append_dropWhile]
      have hlayout := Layout.token (hgap cs) (Lexeme.shape_of_read hread) (ih htail)
      rw [← hcs] at hlayout
      exact hlayout

namespace Layout

/-- Tokens do not stand before the place where reading began. -/
theorem le_pos (h : Layout pos cs tokens) : ∀ t ∈ tokens, pos ≤ t.pos := by
  induction h with
  | done hgap =>
      intro t ht
      rw [List.mem_singleton.1 ht]
      exact Nat.le_add_right ..
  | token hgap hshape htail ih =>
      intro t ht
      rcases List.mem_cons.1 ht with rfl | hmem
      · exact Nat.le_add_right ..
      · have := ih t hmem
        omega

/-- A token ends before the next one begins. -/
theorem pairwise (h : Layout pos cs tokens) :
    tokens.Pairwise fun t u => t.pos < u.pos ∧ t.pos + t.text.utf8ByteSize ≤ u.pos := by
  induction h with
  | done hgap => exact List.pairwise_singleton ..
  | token hgap hshape htail ih =>
      refine List.Pairwise.cons ?_ ih
      intro u hu
      have hle := htail.le_pos u hu
      have hpos := byteLength_pos hshape.ne_nil
      rw [← byteLength_toList, String.toList_ofList, byteLength_shownText]
      exact ⟨by simp only; omega, hle⟩

/-- The last token is the end of the text, and no other is. -/
theorem exists_init (h : Layout pos cs tokens) :
    ∃ init, tokens = init ++ [{ kind := .eof, text := "", pos := pos + byteLength cs }] ∧
      ∀ t ∈ init, t.kind ≠ .eof := by
  induction h with
  | done hgap => exact ⟨[], rfl, fun t ht => by cases ht⟩
  | token hgap hshape htail ih =>
      obtain ⟨init, htokens, hinit⟩ := ih
      rw [htokens, byteLength_append, byteLength_append, ← Nat.add_assoc, ← Nat.add_assoc]
      exact ⟨_ :: init, rfl, List.forall_mem_cons.2 ⟨hshape.kind_ne_eof, hinit⟩⟩

/-- Every token but the last has its text at its place. -/
theorem exists_text (h : Layout pos cs tokens) {t : Token} (ht : t ∈ tokens)
    (hkind : t.kind ≠ .eof) :
    ∃ before text after, cs = before ++ (text ++ after) ∧ pos + byteLength before = t.pos ∧
      Shape t.kind text ∧ t.text = String.ofList (shownText t.kind text) := by
  induction h with
  | done hgap =>
      rw [List.mem_singleton.1 ht] at hkind
      exact absurd rfl hkind
  | @token pos gap text rest kind tokens hgap hshape htail ih =>
      rcases List.mem_cons.1 ht with rfl | hmem
      · exact ⟨gap, text, rest, rfl, rfl, hshape, rfl⟩
      · obtain ⟨before, text', after, rfl, hpos, hshape', htext⟩ := ih hmem
        refine ⟨gap ++ (text ++ before), text', after, by simp, ?_, hshape', htext⟩
        rw [← hpos, byteLength_append, byteLength_append]
        omega

/-- Every token but the last says a word. -/
theorem isValid (h : Layout pos cs tokens) {t : Token} (ht : t ∈ tokens) (hkind : t.kind ≠ .eof) :
    t.word.IsValid := by
  obtain ⟨before, text, after, -, -, hshape, htext⟩ := h.exists_text ht hkind
  rw [Token.word, htext]
  exact isValid_shownText hshape

/-- A character is a blank or in a token. -/
theorem isAsciiBlank_or_mem (h : Layout pos cs tokens) {before after : List Char} {c : Char}
    (hcs : cs = before ++ c :: after) :
    isAsciiBlank c = true ∨ ∃ t ∈ tokens,
      t.pos ≤ pos + byteLength before ∧ pos + byteLength before < t.pos + t.text.utf8ByteSize := by
  induction h generalizing before with
  | done hgap =>
      left
      exact hgap c (hcs ▸ List.mem_append_right before (List.mem_cons_self ..))
  | @token pos gap text rest kind tokens hgap hshape htail ih =>
      rcases exists_of_append_eq_append_cons hcs with ⟨inner, hinner⟩ | ⟨inner, rfl, hinner⟩
      · left
        exact hgap c (hinner ▸ List.mem_append_right before (List.mem_cons_self ..))
      · rcases exists_of_append_eq_append_cons hinner with ⟨later, rfl⟩ | ⟨later, rfl, hlater⟩
        · have hc := byteLength_pos (List.cons_ne_nil c later)
          refine .inr ⟨_, List.mem_cons_self .., ?_⟩
          simp only [← byteLength_toList, String.toList_ofList, byteLength_shownText,
            byteLength_append]
          omega
        · rcases ih hlater with hblank | ⟨t, ht, hle, hlt⟩
          · exact .inl hblank
          · refine .inr ⟨t, List.mem_cons_of_mem _ ht, ?_⟩
            simp only [byteLength_append]
            omega

end Layout

/-! ## What tokens keep of a text -/

/-- Tokens stand at their places in a text, and nothing but blanks stands between them. -/
structure Lossless (source : String) (tokens : List Token) : Prop where
  /-- Each token starts after the one before it. -/
  increasing : tokens.Pairwise fun t u => t.pos < u.pos
  /-- Each token has ended where the next one starts. -/
  disjoint : tokens.Pairwise fun t u => t.pos + t.text.utf8ByteSize ≤ u.pos
  /-- A token other than the last shows the text at its place, a keyword in small letters. -/
  spelled : ∀ t ∈ tokens, t.kind ≠ .eof → t.text ≠ "" ∧
    ∃ before text after : String, source = before ++ text ++ after ∧
      before.utf8ByteSize = t.pos ∧
      t.text = if t.kind = .keyword then text.map Char.toLower else text
  /-- Every character outside of the tokens is a blank. -/
  blank : ∀ (before after : String) (c : Char), source = before ++ String.singleton c ++ after →
    isAsciiBlank c = true ∨
      ∃ t ∈ tokens, t.pos ≤ before.utf8ByteSize ∧
        before.utf8ByteSize < t.pos + t.text.utf8ByteSize
  /-- The last token, and no other, is the end of the text, where all bytes are read. -/
  ending : ∃ init, tokens = init ++ [{ kind := .eof, text := "", pos := source.utf8ByteSize }] ∧
    ∀ t ∈ init, t.kind ≠ .eof

/-- The text of a token is that of the source, in lower case for keywords. -/
theorem ofList_shownText (kind : TokenKind) (text : List Char) :
    String.ofList (shownText kind text) =
      if kind = .keyword then (String.ofList text).map Char.toLower else String.ofList text := by
  rw [shownText]
  split
  · apply String.toList_inj.1
    simp
  · rfl

/-- What is laid out over a whole text is at its places. -/
theorem Layout.lossless {source : String} (h : Layout 0 source.toList tokens) :
    Lossless source tokens where
  increasing := h.pairwise.imp fun h => h.1
  disjoint := h.pairwise.imp fun h => h.2
  spelled := by
    intro t ht hkind
    obtain ⟨before, text, after, hsource, hpos, hshape, htext⟩ := h.exists_text ht hkind
    refine ⟨?_, String.ofList before, String.ofList text, String.ofList after, ?_, ?_, ?_⟩
    · intro hempty
      apply (h.isValid ht hkind).shape.ne_nil
      rw [Token.text_word, hempty]
      rfl
    · apply String.toList_inj.1
      simp [hsource]
    · rw [← byteLength_toList, String.toList_ofList, ← hpos, Nat.zero_add]
    · rw [htext, ofList_shownText]
  blank := by
    intro before after c hsource
    have hcs : source.toList = before.toList ++ c :: after.toList := by simp [hsource]
    simpa [← byteLength_toList] using h.isAsciiBlank_or_mem hcs
  ending := by
    simpa [byteLength_toList] using h.exists_init

end Almanac
