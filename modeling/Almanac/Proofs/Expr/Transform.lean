import Almanac.Proofs.Expr.Placement
import Almanac.Proofs.Text.Blank
import Almanac.Proofs.Token.Characters
import Almanac.Proofs.Token.Continuation

/-!
# Transforms and their tokens

A transform is cut at its comma before there are tokens, and the blanks at the ends of its two
sides are dropped.  This is the same as cutting its tokens at the comma: no token goes on over a
comma, and none is read differently because of it.

Main definitions:

- `commas`: how many tokens are commas.
- `beforeComma`, `afterComma`: the tokens on the two sides of the first comma.
- `FailsInSide`: a transform with a side that is wrong.

Main results:

- Theorem `splitAtCommas_append`: a text is cut at its first comma.
- Theorem `Layout.commas_eq_count`: every comma of a text is a token.
- Theorem `exists_tokensFrom_of_comma`: what the tokens of a text with a comma are.
- Theorem `exists_parseChars_trim`: blanks at the ends of a text only move its tokens.
- Theorem `parseTransform_of_tokenize`: a transform is read from its tokens.
-/

namespace Almanac

open Text

variable {cs front gap rest : List Char} {tokens : List Token} {pos : Nat}

/-! ## Cutting a text at its commas -/

/-- Without a comma there is one part. -/
theorem splitAtCommas_of_not_mem (hcs : ',' ∉ cs) : splitAtCommas cs = [cs] := by
  induction cs with
  | nil => rfl
  | cons c cs ih =>
      obtain ⟨hc, hcs⟩ := List.ne_and_not_mem_of_not_mem_cons hcs
      rw [splitAtCommas, if_neg (Ne.symm hc), ih hcs]

/-- A text is cut at its first comma. -/
theorem splitAtCommas_append (hfront : ',' ∉ front) (rest : List Char) :
    splitAtCommas (front ++ ',' :: rest) = front :: splitAtCommas rest := by
  induction front with
  | nil => rw [List.nil_append, splitAtCommas, if_pos rfl]
  | cons c front ih =>
      obtain ⟨hc, hfront⟩ := List.ne_and_not_mem_of_not_mem_cons hfront
      rw [List.cons_append, splitAtCommas, if_neg (Ne.symm hc), ih hfront]

/-- There is one part more than there are commas. -/
theorem length_splitAtCommas (cs : List Char) :
    (splitAtCommas cs).length = cs.count ',' + 1 := by
  induction cs with
  | nil => rfl
  | cons c cs ih =>
      rw [splitAtCommas]
      by_cases hc : c = ','
      · rw [if_pos hc, hc, List.length_cons, ih, List.count_cons_self]
      · rw [if_neg hc, List.count_cons_of_ne hc]
        cases hparts : splitAtCommas cs with
        | nil =>
            rw [hparts] at ih
            cases ih
        | cons part parts =>
            rw [hparts] at ih
            exact ih

/-- A text with one comma has a side before it and a side after it. -/
theorem exists_comma (h : cs.count ',' = 1) :
    ∃ front rest, cs = front ++ ',' :: rest ∧ ',' ∉ front ∧ ',' ∉ rest := by
  have hmem : ',' ∈ cs := List.count_pos_iff.1 (by omega)
  obtain ⟨front, rest, rfl⟩ := List.append_of_mem hmem
  rw [List.count_append, List.count_cons_self] at h
  exact ⟨front, rest, rfl, List.count_eq_zero.1 (by omega), List.count_eq_zero.1 (by omega)⟩

/-! ## Cutting tokens at their commas -/

/-- How many tokens are commas. -/
def commas (tokens : List Token) : Nat :=
  tokens.countP fun t => t.kind = .comma

/-- The tokens before the first comma. -/
def beforeComma (tokens : List Token) : List Token :=
  tokens.takeWhile fun t => t.kind ≠ .comma

/-- The tokens after the first comma. -/
def afterComma (tokens : List Token) : List Token :=
  (tokens.dropWhile fun t => t.kind ≠ .comma).tail

/-- No commas are counted where no token is one. -/
theorem commas_eq_zero : commas tokens = 0 ↔ ∀ t ∈ tokens, t.kind ≠ .comma := by
  simp [commas, List.countP_eq_zero]

/-- A class of characters that the comma is none of has no comma. -/
theorem count_comma_eq_zero {p : Char → Bool} (hp : p ',' = false) (h : ∀ c ∈ cs, p c = true) :
    cs.count ',' = 0 := by
  refine List.count_eq_zero.2 fun hmem => ?_
  have hcomma := h ',' hmem
  rw [hp] at hcomma
  cases hcomma

/-- Every comma of a text is a token. -/
theorem Layout.commas_eq_count (h : Layout pos cs tokens) : commas tokens = cs.count ',' := by
  induction h with
  | done hgap => exact (count_comma_eq_zero rfl hgap).symm
  | @token pos gap text rest kind tokens hgap hshape htail ih =>
      rw [List.count_append, List.count_append, count_comma_eq_zero rfl hgap, ← ih, commas,
        List.countP_cons, commas]
      by_cases hkind : kind = .comma
      · subst hkind
        rw [hshape.eq_comma]
        simp [Nat.add_comm]
      · have htext := count_comma_eq_zero rfl (hshape.forall_isInner hkind)
        simp [htext, hkind]

/-! ### Around a comma -/

theorem endsLexeme_comma (rest : List Char) : EndsLexeme (',' :: rest) where
  head := rfl
  clock := by
    intro after h
    cases h
  zone := rfl

/-- A comma is a token by itself. -/
theorem tokensFrom_comma (pos : Nat) (rest : List Char) :
    tokensFrom pos (',' :: rest) =
      (tokensFrom (pos + 1) rest).map ({ kind := .comma, text := ",", pos := pos } :: ·) :=
  have hread : Lexeme.read ',' rest = .ok { kind := .comma, text := [','], rest := rest } := rfl
  tokensFrom_of_read pos rfl hread

/-- A text with a comma has the tokens of what stands before it, the comma, and the tokens of
what stands after it. -/
theorem exists_tokensFrom_of_comma (h : tokensFrom pos (front ++ ',' :: rest) = .ok tokens) :
    ∃ first second, tokensFrom pos front = .ok first ∧
      tokensFrom (pos + byteLength front + 1) rest = .ok second ∧
      tokens = beforeEof first ++
        { kind := .comma, text := ",", pos := pos + byteLength front } :: second := by
  obtain ⟨first, tail, hfirst, htail, rfl⟩ := exists_tokensFrom_append (endsLexeme_comma rest) h
  rw [tokensFrom_comma] at htail
  cases hsecond : tokensFrom (pos + byteLength front + 1) rest with
  | error e =>
      rw [hsecond] at htail
      cases htail
  | ok second =>
      rw [hsecond] at htail
      exact ⟨first, second, hfirst, rfl, by rw [← Except.ok.inj htail]⟩

section Sides

variable {first second : List Token} {comma : Token}
  (hfirst : ∀ t ∈ first, t.kind ≠ .comma) (hcomma : comma.kind = .comma)
include hfirst hcomma

/-- The tokens before the first comma. -/
theorem beforeComma_append : beforeComma (first ++ comma :: second) = first := by
  rw [beforeComma, List.takeWhile_append_of_pos fun t ht => decide_eq_true (hfirst t ht),
    List.takeWhile_cons_of_neg (by simp [hcomma]), List.append_nil]

/-- The tokens behind the first comma. -/
theorem afterComma_append : afterComma (first ++ comma :: second) = second := by
  rw [afterComma, List.dropWhile_append_of_pos fun t ht => decide_eq_true (hfirst t ht),
    List.dropWhile_cons_of_neg (by simp [hcomma]), List.tail_cons]

end Sides

/-! ## Blanks at the ends of a text -/

/-- No date goes on with blanks alone. -/
theorem EndsDate.of_blanks (hgap : ∀ c ∈ gap, isAsciiBlank c = true) : EndsDate gap := by
  cases gap with
  | nil => exact EndsDate.nil
  | cons c gap =>
      obtain ⟨hc, hgap'⟩ := List.forall_mem_cons.1 hgap
      by_cases hspace : c = ' '
      · subst hspace
        have hends : EndsWord gap := ⟨fun d hd => hgap' d (List.mem_of_mem_head? hd)⟩
        exact EndsDate.space_of_head (hends.head_any rfl) (hends.head_any rfl)
      · exact EndsDate.cons hc hspace gap

/-- A text with blanks at its ends has the tokens of the text without them. -/
theorem exists_tokensFrom_of_blanks {before after : List Char}
    (hbefore : ∀ c ∈ before, isAsciiBlank c = true) (hafter : ∀ c ∈ after, isAsciiBlank c = true)
    (h : tokensFrom pos (before ++ (cs ++ after)) = .ok tokens) :
    ∃ ts, tokensFrom (pos + byteLength before) cs = .ok ts ∧ beforeEof tokens = beforeEof ts := by
  rw [tokensFrom_blanks pos hbefore] at h
  obtain ⟨ts, ending, hts, hending, rfl⟩ :=
    exists_tokensFrom_append (EndsDate.of_blanks hafter).endsLexeme h
  rw [tokensFrom_of_blanks _ hafter] at hending
  refine ⟨ts, hts, ?_⟩
  rw [← Except.ok.inj hending]
  exact beforeEof_append_eof (fun t ht => kind_ne_eof_of_mem_beforeEof ht) _

/-- The expression of a text that is cut into tokens is that of the text without the blanks at
its ends, up to the places of the tokens. -/
theorem exists_parseChars_trim (h : tokensFrom pos cs = .ok tokens) :
    ∃ n, parseTokens tokens = (parseChars (trim cs)).mapError (ParseError.moved n) := by
  obtain ⟨before, after, hcs, hbefore, hafter⟩ := exists_trim cs
  have hscanned := (layout_of_tokensFrom h).forall_isScanned
  have hascii {gap : List Char} (hgap : ∀ c ∈ gap, isBlank c = true) (hsub : gap ⊆ cs) :
      ∀ c ∈ gap, isAsciiBlank c = true :=
    fun c hc => isAsciiBlank_of_isScanned (hscanned c (hsub hc)) (hgap c hc)
  have hbefore := hascii hbefore (by rw [hcs]; simp)
  have hafter := hascii hafter (by rw [hcs]; simp)
  rw [hcs] at h
  obtain ⟨ts, hts, hsame⟩ := exists_tokensFrom_of_blanks hbefore hafter h
  obtain ⟨us, hus, rfl⟩ := exists_tokensFrom_zero hts
  refine ⟨pos + byteLength before, ?_⟩
  rw [parseTokens, hsame, ← parseTokens, parseTokens_map_moved, parseChars, hus]

/-! ## The sides of a transform -/

/-- A side of a transform is the expression of its tokens. -/
theorem parseSide_eq_ok_iff (side : Side) (h : tokensFrom pos cs = .ok tokens) {e : Expr} :
    parseSide side cs = .ok e ↔ parseTokens tokens = .ok e := by
  obtain ⟨n, hn⟩ := exists_parseChars_trim h
  rw [hn, parseSide]
  cases parseChars (trim cs) with
  | error cause => simp [Except.mapError]
  | ok e => rfl

/-- A side of a transform is wrong as its tokens are, up to their places. -/
theorem exists_parseSide_eq_error (side : Side) (h : tokensFrom pos cs = .ok tokens)
    {e : ParseError} (he : parseTokens tokens = .error e) :
    ∃ n cause, e = cause.moved n ∧ parseSide side cs = .error (.transformPart side cause) := by
  obtain ⟨n, hn⟩ := exists_parseChars_trim h
  rw [he] at hn
  rw [parseSide]
  cases hcs : parseChars (trim cs) with
  | error cause =>
      rw [hcs] at hn
      exact ⟨n, cause, Except.error.inj hn, rfl⟩
  | ok e =>
      rw [hcs] at hn
      cases hn

/-- What stands after the end of the source is not read. -/
theorem parseTokens_beforeEof (tokens : List Token) :
    parseTokens (beforeEof tokens) = parseTokens tokens := by
  rw [parseTokens, beforeEof_of_forall fun t ht => kind_ne_eof_of_mem_beforeEof ht, parseTokens]

/-! ## Transforms -/

section Cut

variable {source : String} (hsource : source.toList = front ++ ',' :: rest) (hfront : ',' ∉ front)
  (hrest : ',' ∉ rest)
include hsource hfront hrest

/-- A text with one comma is cut into its two sides, and the first side that is wrong counts. -/
theorem parseTransform_of_sides :
    parseTransform source = (parseSide .start front).bind fun start =>
      (parseSide .stop rest).bind fun stop => .ok { start, stop } := by
  rw [parseTransform, hsource, splitAtCommas_append hfront, splitAtCommas_of_not_mem hrest]
  rfl

/-- A transform is read exactly if both of its sides are. -/
theorem parseTransform_eq_ok_iff {t : Transform} :
    parseTransform source = .ok t ↔
      parseSide .start front = .ok t.start ∧ parseSide .stop rest = .ok t.stop := by
  rw [parseTransform_of_sides hsource hfront hrest]
  cases parseSide .start front with
  | error e => simp [Except.bind]
  | ok start =>
      cases parseSide .stop rest with
      | error e => simp [Except.bind]
      | ok stop =>
          obtain ⟨start', stop'⟩ := t
          simp [Except.bind]

end Cut

/-- A text is no transform, and the error names a side and has `e` as its cause, up to the places
of tokens. -/
def FailsInSide (source name : String) (e : ParseError) : Prop :=
  ∃ side n cause, Side.name side = name ∧ e = cause.moved n ∧
    parseTransform source = .error (.transformPart side cause)

/-- A transform is read from its tokens.  Unless exactly one of them is a comma it is no
transform, and the error says how many parts it has.  Otherwise it is the two expressions that the
tokens before and after the comma are; if they are none, its error is that of the first side that
is wrong. -/
theorem parseTransform_of_tokenize {source : String} (h : tokenize source = .ok tokens) :
    (commas tokens ≠ 1 → parseTransform source = .error (.invalidTransform (commas tokens + 1))) ∧
      (commas tokens = 1 →
        (∀ t : Transform, parseTransform source = .ok t ↔
          parseTokens (beforeComma tokens) = .ok t.start ∧
            parseTokens (afterComma tokens) = .ok t.stop) ∧
        (∀ e, parseTokens (beforeComma tokens) = .error e → FailsInSide source "begin" e) ∧
        ∀ start e, parseTokens (beforeComma tokens) = .ok start →
          parseTokens (afterComma tokens) = .error e → FailsInSide source "end" e) := by
  have hcount := (layout_of_tokensFrom h).commas_eq_count
  have hlength := length_splitAtCommas source.toList
  rw [← hcount] at hlength
  refine ⟨fun hne => ?_, fun hone => ?_⟩
  · rw [parseTransform]
    split
    · rename_i first second hparts
      rw [hparts] at hlength
      exact absurd (Nat.succ.inj hlength).symm hne
    · rw [hlength]
  obtain ⟨front, rest, hsource, hfront, hrest⟩ := exists_comma (hcount.symm.trans hone)
  rw [tokenize, hsource] at h
  obtain ⟨first, second, hfirst, hsecond, rfl⟩ := exists_tokensFrom_of_comma h
  have hnone : ∀ t ∈ beforeEof first, t.kind ≠ .comma := by
    have hzero := (layout_of_tokensFrom hfirst).commas_eq_count.trans
      (List.count_eq_zero.2 hfront)
    exact fun t ht => commas_eq_zero.1 hzero t ((List.takeWhile_sublist _).subset ht)
  rw [beforeComma_append hnone rfl, afterComma_append hnone rfl, parseTokens_beforeEof]
  refine ⟨fun t => ?_, fun e he => ?_, fun start e hstart he => ?_⟩
  · rw [parseTransform_eq_ok_iff hsource hfront hrest, parseSide_eq_ok_iff .start hfirst,
      parseSide_eq_ok_iff .stop hsecond]
  · obtain ⟨n, cause, hcause, hside⟩ := exists_parseSide_eq_error .start hfirst he
    refine ⟨.start, n, cause, rfl, hcause, ?_⟩
    rw [parseTransform_of_sides hsource hfront hrest, hside]
    rfl
  · obtain ⟨n, cause, hcause, hside⟩ := exists_parseSide_eq_error .stop hsecond he
    refine ⟨.stop, n, cause, rfl, hcause, ?_⟩
    rw [parseTransform_of_sides hsource hfront hrest, (parseSide_eq_ok_iff .start hfirst).2 hstart,
      hside]
    rfl

/-- The second side of this text is wrong at its bar, which is byte 9 of the text and byte 0 of
the side. -/
theorem parseTransform_of_tokenize_pipe :
    ∃ tokens start e, tokenize "$begin , | 1h" = .ok tokens ∧ commas tokens = 1 ∧
      parseTokens (beforeComma tokens) = .ok start ∧
      parseTokens (afterComma tokens) = .error e ∧ FailsInSide "$begin , | 1h" "end" e := by
  have htokens : tokenize "$begin , | 1h" =
      .ok [⟨.var, "$begin", 0⟩, ⟨.comma, ",", 7⟩, ⟨.pipe, "|", 9⟩, ⟨.unit, "1h", 11⟩,
        ⟨.eof, "", 13⟩] := by decide +kernel
  have hstart : parseTokens (beforeComma [⟨.var, "$begin", 0⟩, ⟨.comma, ",", 7⟩,
      ⟨.pipe, "|", 9⟩, ⟨.unit, "1h", 11⟩, ⟨.eof, "", 13⟩]) = .ok (.var "$begin") := by
    decide +kernel
  have hstop : parseTokens (afterComma [⟨.var, "$begin", 0⟩, ⟨.comma, ",", 7⟩,
      ⟨.pipe, "|", 9⟩, ⟨.unit, "1h", 11⟩, ⟨.eof, "", 13⟩]) =
        .error (.unexpectedToken ⟨.pipe, "|", 9⟩) := by
    decide +kernel
  have hread := (parseTransform_of_tokenize htokens).2 rfl
  exact ⟨_, _, _, htokens, rfl, hstart, hstop, hread.2.2 _ _ hstart hstop⟩

end Almanac
