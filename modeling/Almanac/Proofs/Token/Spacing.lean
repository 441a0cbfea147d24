import Almanac.Proofs.Expr.Grammar
import Almanac.Proofs.Token.Layout

/-!
# Blanks between tokens

A text that is put together from words, with enough blanks between them, is cut into
these words again: no word depends on its neighbours, except that an ISO date can go on
past one space.  So the blanks between the tokens of a text can be changed, and its
expression stays the same.

Main definitions:

- `Scans`: a text is cut into the given words, wherever it begins.
- `IsSeparator`, `Joined`: a text is put together from words and blanks between them.

Main results:

- Theorems `Scans.blanks`, `Scans.word`: a text is scanned word by word.
- Theorem `Scans.parseChars_eq_ok_iff`: the words alone say which expression a text is.
- Theorem `scans_of_joined`: words are read again from a text that joins them.
- Theorem `tokenize_lossless`: nothing of a text is lost, and no spacing of its words
  changes them or the expression.
-/

namespace Almanac

open Text

variable {cs gap rest : List Char} {pos : Nat} {w : Word} {ws : List Word}

/-! ## Scanning word by word -/

/-- Wherever a text begins, it is cut into tokens that say `ws`. -/
def Scans (cs : List Char) (ws : List Word) : Prop :=
  ∀ pos, ∃ tokens stop,
    tokensFrom pos cs = .ok (tokens ++ [{ kind := .eof, text := "", pos := stop }]) ∧
      words tokens = ws

/-- Blanks before a token are passed over. -/
theorem tokensFrom_blanks (pos : Nat) (hgap : ∀ c ∈ gap, isAsciiBlank c = true) :
    tokensFrom pos (gap ++ cs) = tokensFrom (pos + byteLength gap) cs := by
  have htake : (gap ++ cs).takeWhile isAsciiBlank = gap ++ cs.takeWhile isAsciiBlank :=
    List.takeWhile_append_of_pos hgap
  have hdrop : (gap ++ cs).dropWhile isAsciiBlank = cs.dropWhile isAsciiBlank :=
    List.dropWhile_append_of_pos hgap
  rw [tokensFrom, tokensFrom.eq_def (pos + byteLength gap)]
  simp only [htake, byteLength_append, ← Nat.add_assoc]
  -- The two sides now differ in the list that each of them matches on.
  grind

/-! ### Blanks and lexemes by turns -/

section Turns

variable {c : Char} (pos : Nat) (hgap : ∀ c ∈ gap, isAsciiBlank c = true)
include hgap

/-- Behind the last blanks there is only the end of the source. -/
theorem tokensFrom_of_blanks :
    tokensFrom pos gap = .ok [{ kind := .eof, text := "", pos := pos + byteLength gap }] := by
  have hblanks := (tokensFrom_blanks pos hgap).trans (tokensFrom_nil _)
  rwa [List.append_nil] at hblanks

/-- Behind blanks a lexeme is read, and then what is left. -/
theorem tokensFrom_of_lexeme {l : Lexeme} (hc : isAsciiBlank c = false)
    (hread : Lexeme.read c rest = .ok l) :
    tokensFrom pos (gap ++ c :: rest) =
      (tokensFrom (pos + byteLength gap + byteLength l.text) l.rest).map
        (l.token (pos + byteLength gap) :: ·) := by
  rw [tokensFrom_blanks pos hgap, tokensFrom_of_read _ hc hread]

/-- Behind blanks a flaw is found where it stands. -/
theorem tokensFrom_of_flaw {flaw : LexFlaw} (hc : isAsciiBlank c = false)
    (hread : Lexeme.read c rest = .error flaw) :
    tokensFrom pos (gap ++ c :: rest) =
      .error { flaw := flaw, pos := pos + byteLength gap } := by
  rw [tokensFrom_blanks pos hgap, tokensFrom_of_read_error _ hc hread]

end Turns

/-- Induction over a text from its end: it has blanks only, or there is a flaw after its first
blanks, or a lexeme and then a text for which it is proved. -/
theorem induction_of_lexemes {motive : Nat → List Char → Prop}
    (blanks : ∀ pos gap, (∀ c ∈ gap, isAsciiBlank c = true) → motive pos gap)
    (flaw : ∀ pos gap c rest flaw, (∀ c ∈ gap, isAsciiBlank c = true) → isAsciiBlank c = false →
      Lexeme.read c rest = .error flaw → motive pos (gap ++ c :: rest))
    (lexeme : ∀ pos gap c rest l, (∀ c ∈ gap, isAsciiBlank c = true) → isAsciiBlank c = false →
      Lexeme.read c rest = .ok l → motive (pos + byteLength gap + byteLength l.text) l.rest →
        motive pos (gap ++ c :: rest))
    (pos : Nat) (cs : List Char) : motive pos cs := by
  have hgap : ∀ c ∈ cs.takeWhile isAsciiBlank, isAsciiBlank c = true :=
    fun c hc => List.mem_takeWhile_imp hc
  have happend := List.takeWhile_append_dropWhile (p := isAsciiBlank) (l := cs)
  cases hrest : cs.dropWhile isAsciiBlank with
  | nil =>
      rw [hrest, List.append_nil] at happend
      rw [happend] at hgap
      exact blanks pos cs hgap
  | cons c rest =>
      have hc : isAsciiBlank c = false := by
        have hhead := List.head?_dropWhile_not isAsciiBlank cs
        rw [hrest] at hhead
        simpa using hhead
      rw [← happend, hrest]
      cases hread : Lexeme.read c rest with
      | error error => exact flaw pos _ c rest error hgap hc hread
      | ok l =>
          have hlt := Lexeme.length_rest_lt hrest hread
          exact lexeme pos _ c rest l hgap hc hread
            (induction_of_lexemes blanks flaw lexeme _ l.rest)
termination_by cs.length

/-- A text is an expression if its words are. -/
theorem parseChars_eq_ok_iff_of_tokens {tokens : List Token} {e : Expr}
    (h : tokensFrom 0 cs = .ok tokens) :
    parseChars cs = .ok e ↔ IsExpression (words (beforeEof tokens)) e := by
  rw [parseChars, h]
  exact read_eq_ok_iff

/-- Tokens other than the end of the source come before it. -/
theorem beforeEof_append {tokens : List Token} (h : ∀ t ∈ tokens, t.kind ≠ .eof)
    (more : List Token) : beforeEof (tokens ++ more) = tokens ++ beforeEof more :=
  List.takeWhile_append_of_pos fun t ht => decide_eq_true (h t ht)

theorem beforeEof_of_forall {tokens : List Token} (h : ∀ t ∈ tokens, t.kind ≠ .eof) :
    beforeEof tokens = tokens := by
  simpa [beforeEof] using beforeEof_append h []

/-- Exactly what stands before the end of the source is read. -/
theorem beforeEof_append_eof {tokens : List Token} (h : ∀ t ∈ tokens, t.kind ≠ .eof) (stop : Nat) :
    beforeEof (tokens ++ [{ kind := .eof, text := "", pos := stop }]) = tokens := by
  rw [beforeEof_append h]
  simp [beforeEof]

/-- The tokens of a text before its end say words. -/
theorem exists_words_of_tokensFrom {tokens : List Token} (h : tokensFrom pos cs = .ok tokens) :
    ∃ init stop, tokens = init ++ [{ kind := .eof, text := "", pos := stop }] ∧
      beforeEof tokens = init ∧ ∀ w ∈ words init, w.IsValid := by
  have hlayout := layout_of_tokensFrom h
  obtain ⟨init, rfl, hinit⟩ := hlayout.exists_init
  refine ⟨init, _, rfl, beforeEof_append_eof hinit _, ?_⟩
  intro w hw
  obtain ⟨t, ht, rfl⟩ := List.mem_map.1 hw
  exact hlayout.isValid (List.mem_append_left _ ht) (hinit t ht)

/-- An expression that is read has tokens that derive it. -/
theorem exists_tokens_of_parse {source : String} {e : Expr} (h : parse source = .ok e) :
    ∃ tokens, tokensFrom 0 source.toList = .ok tokens ∧
      (∀ w ∈ words (beforeEof tokens), w.IsValid) ∧ IsExpression (words (beforeEof tokens)) e := by
  rw [parse] at h
  cases htokens : tokensFrom 0 source.toList with
  | error error =>
      rw [parseChars, htokens] at h
      cases h
  | ok tokens =>
      obtain ⟨init, stop, -, hbefore, hvalid⟩ := exists_words_of_tokensFrom htokens
      exact ⟨tokens, rfl, hbefore ▸ hvalid, (parseChars_eq_ok_iff_of_tokens htokens).1 h⟩

/-- An expression that is read has words that derive it. -/
theorem exists_words_of_parse {source : String} {e : Expr} (h : parse source = .ok e) :
    ∃ ws, (∀ w ∈ ws, w.IsValid) ∧ IsExpression ws e := by
  obtain ⟨tokens, -, hvalid, hexpr⟩ := exists_tokens_of_parse h
  exact ⟨_, hvalid, hexpr⟩

namespace Scans

theorem nil : Scans [] [] :=
  fun pos => ⟨[], pos, tokensFrom_nil pos, rfl⟩

/-- Blanks have no words. -/
theorem blanks (hgap : ∀ c ∈ gap, isAsciiBlank c = true) (h : Scans cs ws) :
    Scans (gap ++ cs) ws := by
  intro pos
  rw [tokensFrom_blanks pos hgap]
  exact h (pos + byteLength gap)

/-- A space has no word. -/
theorem space (h : Scans cs ws) : Scans (' ' :: cs) ws := by
  have hspace : ∀ c ∈ [' '], isAsciiBlank c = true := List.forall_mem_singleton.2 rfl
  exact h.blanks hspace

/-- The word that is read first comes before those of the rest. -/
theorem of_read {c : Char} {after : List Char} (hw : w.IsValid) (htext : w.text.toList = c :: after)
    (hblank : isAsciiBlank c = false)
    (hread : Lexeme.read c (after ++ rest) = .ok ⟨w.kind, w.text.toList, rest⟩)
    (h : Scans rest ws) : Scans (w.text.toList ++ rest) (w :: ws) := by
  intro pos
  obtain ⟨tokens, stop, htokens, hwords⟩ := h (pos + byteLength w.text.toList)
  have htoken : Lexeme.token ⟨w.kind, w.text.toList, rest⟩ pos = ⟨w.kind, w.text, pos⟩ := by
    have hshown := hw.shownText_eq
    rw [shownText] at hshown
    simp only [Lexeme.token, hshown, String.ofList_toList]
  rw [htext, List.cons_append, tokensFrom_of_read pos hblank hread, htoken, htokens]
  exact ⟨⟨w.kind, w.text, pos⟩ :: tokens, stop, rfl, by rw [words_cons, hwords]; rfl⟩

/-- A word is scanned before a text that is no part of it. -/
theorem word (hw : w.IsValid) (hrest : EndsWord rest) (hdate : w.kind = .date → EndsDate rest)
    (h : Scans rest ws) : Scans (w.text.toList ++ rest) (w :: ws) := by
  obtain ⟨c, after, htext, hblank, hread⟩ := Lexeme.read_of_shape hw.shape hrest hdate
  exact of_read hw htext hblank hread h

/-- The words of a text say which expression it is. -/
theorem parseChars_eq_ok_iff (h : Scans cs ws) (hws : ∀ w ∈ ws, w.IsValid) {e : Expr} :
    parseChars cs = .ok e ↔ IsExpression ws e := by
  obtain ⟨tokens, stop, htokens, rfl⟩ := h 0
  have hkinds : ∀ t ∈ tokens, t.kind ≠ .eof := by
    intro t ht
    exact (hws t.word (List.mem_map_of_mem ht)).shape.kind_ne_eof
  rw [parseChars_eq_ok_iff_of_tokens htokens, beforeEof_append_eof hkinds]

end Scans

/-! ## Joining words -/

/-- Blanks between two words, which are not one single space. -/
structure IsSeparator (sep : List Char) : Prop where
  ne_nil : sep ≠ []
  blank : ∀ c ∈ sep, isAsciiBlank c = true
  ne_space : sep ≠ [' ']

/-- A text consists of the given texts, with a separator between any two. -/
inductive Joined : List String → List Char → Prop
  | nil : Joined [] []
  | single {text : String} : Joined [text] text.toList
  | cons {text next : String} {texts : List String} {sep cs : List Char} (hsep : IsSeparator sep)
      (h : Joined (next :: texts) cs) : Joined (text :: next :: texts) (text.toList ++ (sep ++ cs))

/-- A separator is no part of the word before it, not even of a date. -/
theorem IsSeparator.endsDate {sep : List Char} (h : IsSeparator sep) (cs : List Char) :
    EndsDate (sep ++ cs) := by
  obtain ⟨c, after, rfl⟩ := List.exists_cons_of_ne_nil h.ne_nil
  have hc := h.blank c (List.mem_cons_self ..)
  by_cases hspace : c = ' '
  · subst hspace
    have hne : after ≠ [] := fun hnil => h.ne_space (by rw [hnil])
    obtain ⟨d, after, rfl⟩ := List.exists_cons_of_ne_nil hne
    have hd : EndsWord (d :: after ++ cs) := EndsWord.cons (h.blank d (by simp)) _
    exact EndsDate.space_of_head (hd.head_any rfl) (hd.head_any rfl)
  · exact EndsDate.cons hc hspace (after ++ cs)

/-- Words are read again from a text that joins them. -/
theorem scans_of_joined (hws : ∀ w ∈ ws, w.IsValid) (h : Joined (ws.map Word.text) cs) :
    Scans cs ws := by
  generalize htexts : ws.map Word.text = texts at h
  induction h generalizing ws with
  | nil =>
      obtain rfl := List.map_eq_nil_iff.1 htexts
      exact Scans.nil
  | single =>
      obtain ⟨w, rfl, rfl⟩ := List.map_eq_singleton_iff.1 htexts
      have hw := hws w (List.mem_singleton_self w)
      simpa using Scans.nil.word hw EndsWord.nil fun _ => EndsDate.nil
  | @cons text next texts sep cs hsep h ih =>
      obtain ⟨w, us, rfl, rfl, hus⟩ := List.map_eq_cons_iff.1 htexts
      have hends := hsep.endsDate cs
      have hcs := ih (fun u hu => hws u (List.mem_cons_of_mem w hu)) hus
      exact (hcs.blanks hsep.blank).word (hws w (List.mem_cons_self ..)) hends.toEndsWord
        fun _ => hends

/-! ## Nothing is lost -/

/-- Tokens stand at their places in the text, and nothing else does but blanks.  The words
that they say can be joined by any separators: the text is cut into the same words, and
is the same expression. -/
theorem tokenize_lossless {source : String} {tokens : List Token}
    (h : tokenize source = .ok tokens) :
    Lossless source tokens ∧
      ∀ joined : String, Joined ((beforeEof tokens).map Token.text) joined.toList →
        (∃ again, tokenize joined = .ok again ∧ words again = words tokens) ∧
        ∀ e, parse joined = .ok e ↔ parse source = .ok e := by
  obtain ⟨init, stop, htokens, hbefore, hvalid⟩ := exists_words_of_tokensFrom h
  refine ⟨(layout_of_tokensFrom h).lossless, ?_⟩
  intro joined hjoined
  have hscans : Scans joined.toList (words init) := by
    refine scans_of_joined hvalid ?_
    rw [hbefore] at hjoined
    simpa [words, Function.comp_def] using hjoined
  constructor
  · obtain ⟨again, stop, hagain, hwords⟩ := hscans 0
    refine ⟨_, hagain, ?_⟩
    rw [htokens, words_append, words_append, hwords]
    rfl
  · intro e
    rw [parse, parse, hscans.parseChars_eq_ok_iff hvalid, parseChars_eq_ok_iff_of_tokens h,
      hbefore]

/-- A date with a clock and a zone, and a keyword with a capital letter, joined anew. -/
theorem tokenize_lossless_date :
    ∃ tokens, tokenize "2024-01-15 10:30 cet |Round hour" = .ok tokens ∧
      Lossless "2024-01-15 10:30 cet |Round hour" tokens ∧
      (∃ again, tokenize "2024-01-15 10:30 cet\t|  round\nhour" = .ok again ∧
        words again = words tokens) ∧
      ∀ e, parse "2024-01-15 10:30 cet\t|  round\nhour" = .ok e ↔
        parse "2024-01-15 10:30 cet |Round hour" = .ok e := by
  have htokens : tokenize "2024-01-15 10:30 cet |Round hour" =
      .ok [⟨.date, "2024-01-15 10:30 cet", 0⟩, ⟨.pipe, "|", 21⟩, ⟨.keyword, "round", 22⟩,
        ⟨.keyword, "hour", 28⟩, ⟨.eof, "", 32⟩] := by decide +kernel
  have htab : IsSeparator ['\t'] := ⟨by simp, by simp [isAsciiBlank], by simp⟩
  have hspaces : IsSeparator [' ', ' '] := ⟨by simp, by simp [isAsciiBlank], by simp⟩
  have hline : IsSeparator ['\n'] := ⟨by simp, by simp [isAsciiBlank], by simp⟩
  have hjoined : Joined ["2024-01-15 10:30 cet", "|", "round", "hour"]
      "2024-01-15 10:30 cet\t|  round\nhour".toList :=
    .cons htab (.cons hspaces (.cons hline .single))
  have hlossless := tokenize_lossless htokens
  exact ⟨_, htokens, hlossless.1, hlossless.2 _ hjoined⟩

end Almanac
