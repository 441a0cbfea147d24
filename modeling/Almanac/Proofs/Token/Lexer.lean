import Almanac.Proofs.Text.Digits
import Almanac.Token.Lexer

/-!
# What the tokenizer reads

What a template splits off a text, and how the tokens of a text come from the lexemes
at the places where they start.

Main definitions:

- `Fits`: a text has the shape of a template.

Main results:

- Theorem `splitTemplate?_eq_some_iff`: what a template splits off a text.
- Theorem `fits_replicate_iff`: places for digits are fitted by numbers.
- Theorem `tokensFrom_of_read`: the first token is that of the first lexeme.
- Theorem `exists_read_of_mem_tokens`: every token but the last is that of a lexeme.
-/

namespace Almanac

open Text

variable {cs front rest : List Char}

/-! ## Templates -/

/-- A text fits a template place by place. -/
def Fits (template cs : List Char) : Prop :=
  List.Forall₂ (fun place c => fitsTemplate place c = true) template cs

/-- A template takes what fits it from the front. -/
theorem splitTemplate?_eq_some_iff {template : List Char} :
    splitTemplate? template cs = some (front, rest) ↔ Fits template front ∧ cs = front ++ rest := by
  induction template generalizing cs front with
  | nil =>
      simp only [splitTemplate?, Fits, List.forall₂_nil_left_iff, Option.some.injEq, Prod.mk.injEq]
      constructor
      · rintro ⟨rfl, rfl⟩
        exact ⟨rfl, rfl⟩
      · rintro ⟨rfl, rfl⟩
        exact ⟨rfl, rfl⟩
  | cons place template ih =>
      simp only [Fits, List.forall₂_cons_left_iff]
      cases cs with
      | nil =>
          simp only [splitTemplate?, reduceCtorEq, false_iff]
          rintro ⟨⟨c, front, -, -, rfl⟩, hcs⟩
          cases hcs
      | cons c cs =>
          by_cases hfits : fitsTemplate place c = true
          · simp only [splitTemplate?, hfits, if_true, Option.map_eq_some_iff, Prod.exists,
              Prod.mk.injEq]
            constructor
            · rintro ⟨a, b, hab, rfl, rfl⟩
              obtain ⟨ha, rfl⟩ := ih.1 hab
              exact ⟨⟨c, a, hfits, ha, rfl⟩, rfl⟩
            · rintro ⟨⟨d, a, -, ha, rfl⟩, hcs⟩
              obtain ⟨rfl, rfl⟩ := List.cons.inj hcs
              exact ⟨a, rest, ih.2 ⟨ha, rfl⟩, rfl, rfl⟩
          · rw [splitTemplate?, if_neg hfits]
            constructor
            · intro h
              cases h
            · rintro ⟨⟨d, a, hd, -, rfl⟩, hcs⟩
              obtain ⟨rfl, -⟩ := List.cons.inj hcs
              exact absurd hd hfits

/-- What fits two templates on end is in two parts. -/
theorem fits_append_iff {s t : List Char} :
    Fits (s ++ t) cs ↔ ∃ a b, cs = a ++ b ∧ Fits s a ∧ Fits t b := by
  induction s generalizing cs with
  | nil =>
      constructor
      · exact fun h => ⟨[], cs, rfl, List.Forall₂.nil, h⟩
      · rintro ⟨a, b, rfl, ha, hb⟩
        cases ha
        exact hb
  | cons place s ih =>
      constructor
      · intro h
        obtain ⟨c, cs, hc, htail, rfl⟩ := List.forall₂_cons_left_iff.1 h
        obtain ⟨a, b, rfl, ha, hb⟩ := ih.1 htail
        exact ⟨c :: a, b, rfl, List.Forall₂.cons hc ha, hb⟩
      · rintro ⟨front, b, rfl, hfront, hb⟩
        obtain ⟨c, a, hc, ha, rfl⟩ := List.forall₂_cons_left_iff.1 hfront
        exact List.Forall₂.cons hc (ih.2 ⟨a, b, rfl, ha, hb⟩)

/-- A character other than the digit place fits itself alone. -/
theorem fits_singleton_iff {c : Char} (hc : c ≠ '0') : Fits [c] cs ↔ cs = [c] := by
  simp only [Fits, List.forall₂_cons_left_iff, List.forall₂_nil_left_iff, fitsTemplate, hc,
    if_false, beq_iff_eq]
  constructor
  · rintro ⟨d, rest, rfl, rfl, rfl⟩
    rfl
  · rintro rfl
    exact ⟨c, [], rfl, rfl, rfl⟩

/-- Places for digits are fitted by numbers of so many digits. -/
theorem fits_replicate_iff {width : Nat} :
    Fits (List.replicate width '0') cs ↔ ∃ n : Fin (10 ^ width), cs = fixedDigits width n := by
  rw [exists_fixedDigits_iff]
  induction width generalizing cs with
  | zero =>
      simp only [Fits, List.replicate_zero, List.forall₂_nil_left_iff, List.length_eq_zero_iff]
      constructor
      · rintro rfl
        exact ⟨rfl, by simp⟩
      · exact fun h => h.1
  | succ width ih =>
      rw [List.replicate_succ, Fits, List.forall₂_cons_left_iff]
      constructor
      · rintro ⟨c, cs, hc, hcs, rfl⟩
        obtain ⟨hlength, hdigits⟩ := ih.1 hcs
        exact ⟨congrArg (· + 1) hlength, List.forall_mem_cons.2 ⟨hc, hdigits⟩⟩
      · rintro ⟨hlength, hdigits⟩
        cases cs with
        | nil => cases hlength
        | cons c cs =>
            obtain ⟨hc, hdigits⟩ := List.forall_mem_cons.1 hdigits
            exact ⟨c, cs, hc, ih.2 ⟨Nat.succ.inj hlength, hdigits⟩, rfl⟩

/-! ## What can follow a lexeme -/

/-- A text that a word before it cannot go on with: it is empty or begins with a blank. -/
structure EndsWord (rest : List Char) : Prop where
  blank : ∀ c ∈ rest.head?, isAsciiBlank c = true

/-- A text that an ISO date before it cannot go on with: one space at its beginning is
followed neither by a time of day nor by an abbreviation. -/
structure EndsDate (rest : List Char) : Prop extends EndsWord rest where
  clock : ∀ after, rest = ' ' :: after → splitClock? after = none
  zone : Lexeme.splitZone rest = .ok ([], rest)

/-- The blanks between tokens, one by one. -/
def asciiBlanks : List Char :=
  ['\t', '\n', '\x0c', '\r', ' ']

/-- The blanks between tokens are those of ASCII. -/
theorem isAsciiBlank_iff {c : Char} : isAsciiBlank c = true ↔ c ∈ asciiBlanks := by
  simp [isAsciiBlank, asciiBlanks, or_assoc]

namespace EndsWord

theorem nil : EndsWord [] :=
  ⟨fun _ hc => by cases hc⟩

theorem cons {c : Char} (hc : isAsciiBlank c = true) (rest : List Char) : EndsWord (c :: rest) :=
  ⟨fun _ hd => Option.some.inj hd ▸ hc⟩

/-- A class of characters without blanks has none where a word ends. -/
theorem head_any {p : Char → Bool} (h : EndsWord rest)
    (hp : asciiBlanks.any p = false) : rest.head?.any p = false := by
  cases hhead : rest.head? with
  | none => rfl
  | some c =>
      have hc := List.any_eq_false.1 hp c (isAsciiBlank_iff.1 (h.blank c hhead))
      exact Bool.eq_false_of_not_eq_true hc

/-- What ends a word does not begin with anything but a blank. -/
theorem ne_cons {c : Char} {after : List Char} (h : EndsWord rest)
    (hc : isAsciiBlank c = false) : rest ≠ c :: after := by
  rintro rfl
  rw [h.blank c rfl] at hc
  cases hc

end EndsWord

namespace EndsDate

theorem nil : EndsDate [] where
  toEndsWord := EndsWord.nil
  clock := by
    intro after h
    cases h
  zone := rfl

end EndsDate

/-! ## Lexemes and tokens -/

namespace Lexeme

/-- A token that begins with a digit is a number, a time or a date. -/
theorem read_of_isDigit {c : Char} (hc : c.isDigit = true) (rest : List Char) :
    read c rest = numeral (c :: rest) := by
  have hne (d : Char) (hd : d.isDigit = false) : c ≠ d := ne_of_isDigit hc hd
  simp [read, hc, hne '|' rfl, hne ',' rfl, hne '(' rfl, hne ')' rfl, hne '+' rfl, hne '-' rfl,
    hne '$' rfl, hne '.' rfl]

end Lexeme

/-- At the end of the source there is only its end. -/
theorem tokensFrom_nil (pos : Nat) :
    tokensFrom pos [] = .ok [{ kind := .eof, text := "", pos := pos }] := by
  rw [tokensFrom]
  rfl

/-- A text that begins with a lexeme has the token of that lexeme first. -/
theorem tokensFrom_of_read {c : Char} {l : Lexeme} (pos : Nat) (hblank : isAsciiBlank c = false)
    (hread : Lexeme.read c rest = .ok l) :
    tokensFrom pos (c :: rest) =
      (tokensFrom (pos + byteLength l.text) l.rest).map (l.token pos :: ·) := by
  rw [tokensFrom]
  split <;> rename_i hrest
  · simp [hblank] at hrest
  · obtain ⟨rfl, rfl⟩ : c = _ ∧ rest = _ := by simpa [hblank] using hrest
    split <;> rename_i hread'
    · rw [hread] at hread'
      cases hread'
    · rw [hread] at hread'
      cases hread'
      have hstart : pos + byteLength ((c :: rest).takeWhile isAsciiBlank) = pos := by
        simp [hblank, byteLength]
      rw [hstart]
      cases tokensFrom (pos + byteLength l.text) l.rest <;> rfl

/-- A text that begins with no lexeme cannot be cut into tokens. -/
theorem tokensFrom_of_read_error {c : Char} {flaw : LexFlaw} (pos : Nat)
    (hblank : isAsciiBlank c = false) (hread : Lexeme.read c rest = .error flaw) :
    tokensFrom pos (c :: rest) = .error { flaw := flaw, pos := pos } := by
  rw [tokensFrom]
  split <;> rename_i hrest
  · simp [hblank] at hrest
  · obtain ⟨rfl, rfl⟩ : c = _ ∧ rest = _ := by simpa [hblank] using hrest
    split <;> rename_i hread'
    · rw [hread] at hread'
      cases hread'
      simp [hblank, byteLength]
    · rw [hread] at hread'
      cases hread'

/-- Every token but the last is that of a lexeme. -/
theorem exists_read_of_mem_tokens {pos : Nat} {tokens : List Token} {t : Token}
    (h : tokensFrom pos cs = .ok tokens) (ht : t ∈ tokens) :
    t.kind = .eof ∨
      ∃ c rest l start, Lexeme.read c rest = .ok l ∧ t = l.token start := by
  fun_induction tokensFrom pos cs generalizing tokens with
  | case1 pos cs hrest =>
      cases h
      rw [List.mem_singleton.1 ht]
      exact .inl rfl
  | case2 => cases h
  | case3 => cases h
  | case4 =>
      rename_i start c rest hrest l hread hlt tail htail ih
      cases h
      rcases List.mem_cons.1 ht with hhead | hmem
      · exact .inr ⟨c, rest, l, start, hread, hhead⟩
      · exact ih htail hmem

end Almanac
