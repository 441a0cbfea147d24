import Almanac.Proofs.Token.Spacing

/-!
# Texts at other places

Where a text stands in its source decides on the places of its tokens and of its error and on
nothing else: all of them move with the text.

Main definitions:

- `Token.moved`, `LexError.moved`: a token and an error so many bytes later.

Main results:

- Theorem `tokensFrom_add`: the tokens of a text so many bytes later.
- Theorem `exists_tokensFrom`: the words of a text are the same at any place.
-/

namespace Almanac

open Text

variable {cs : List Char} {tokens : List Token} {pos : Nat}

/-- A token that starts `n` bytes later. -/
def Token.moved (n : Nat) (t : Token) : Token :=
  { t with pos := t.pos + n }

@[simp]
theorem Token.kind_moved (n : Nat) (t : Token) : (t.moved n).kind = t.kind :=
  rfl

@[simp]
theorem Token.text_moved (n : Nat) (t : Token) : (t.moved n).text = t.text :=
  rfl

/-- Moved tokens have the same words. -/
@[simp]
theorem words_map_moved (n : Nat) (ts : List Token) : words (ts.map (Token.moved n)) = words ts :=
  List.map_map

/-- An error that is found `n` bytes later. -/
def LexError.moved (n : Nat) (e : LexError) : LexError :=
  { e with pos := e.pos + n }

/-- Tokens and errors move with their text. -/
theorem tokensFrom_add (n pos : Nat) (cs : List Char) :
    tokensFrom (pos + n) cs =
      ((tokensFrom pos cs).mapError (LexError.moved n)).map (List.map (Token.moved n)) := by
  induction pos, cs using induction_of_lexemes with
  | blanks pos gap hgap =>
      rw [tokensFrom_of_blanks _ hgap, tokensFrom_of_blanks _ hgap, Nat.add_right_comm]
      rfl
  | flaw pos gap c rest flaw hgap hc hread =>
      rw [tokensFrom_of_flaw _ hgap hc hread, tokensFrom_of_flaw _ hgap hc hread,
        Nat.add_right_comm]
      rfl
  | lexeme pos gap c rest l hgap hc hread ih =>
      have htoken : l.token (pos + byteLength gap + n) = (l.token (pos + byteLength gap)).moved n :=
        rfl
      rw [tokensFrom_of_lexeme _ hgap hc hread, tokensFrom_of_lexeme _ hgap hc hread,
        Nat.add_right_comm pos n, Nat.add_right_comm _ n, ih, htoken]
      cases tokensFrom (pos + byteLength gap + byteLength l.text) l.rest <;> rfl

/-- A text that is cut into tokens at one place is cut into the same tokens at any other. -/
theorem exists_tokensFrom_zero (h : tokensFrom pos cs = .ok tokens) :
    ∃ ts, tokensFrom 0 cs = .ok ts ∧ tokens = ts.map (Token.moved pos) := by
  have hmoved := tokensFrom_add pos 0 cs
  rw [Nat.zero_add, h] at hmoved
  cases hzero : tokensFrom 0 cs with
  | error e =>
      rw [hzero] at hmoved
      cases hmoved
  | ok ts =>
      rw [hzero] at hmoved
      exact ⟨ts, rfl, Except.ok.inj hmoved⟩

/-- The tokens before the end of the source are moved with it. -/
theorem beforeEof_map_moved (n : Nat) (ts : List Token) :
    beforeEof (ts.map (Token.moved n)) = (beforeEof ts).map (Token.moved n) :=
  List.takeWhile_map

/-- The words of a text are the same at any place. -/
theorem exists_tokensFrom (h : tokensFrom pos cs = .ok tokens) (start : Nat) :
    ∃ ts, tokensFrom start cs = .ok ts ∧ words (beforeEof ts) = words (beforeEof tokens) := by
  obtain ⟨ts, hts, rfl⟩ := exists_tokensFrom_zero h
  have hmoved := tokensFrom_add start 0 cs
  rw [Nat.zero_add, hts] at hmoved
  exact ⟨_, hmoved, by simp only [beforeEof_map_moved, words_map_moved]⟩

end Almanac
