import Almanac.Proofs.Token.Placement

/-!
# Texts that go on

A text may go on after its last word.  As long as what comes then is no part of that word,
every lexeme is read as it was before, and the words of the whole are those of the two parts.
This holds at any place of a text, whether there are blanks between its words or not.

Main definitions:

- `EndsLexeme`: a text that no lexeme before it goes on with.
- `Lexeme.followedBy`: a lexeme with more text after it.

Main results:

- Theorem `Lexeme.read_followed`: a lexeme is read as before when more text follows.
- Theorem `tokensFrom_append`: the tokens of two texts are those of the first, then of the second.
- Theorem `scans_append`: the words of two texts are the words of the first, then of the second.
-/

namespace Almanac

open Text

variable {cs rest : List Char}

/-! ## What no lexeme goes on with -/

/-- The characters that a lexeme may take in after its first. -/
def continues (c : Char) : Bool :=
  c.isAlphanum || c == '.' || c == ':' || c == '+' || c == '-'

/-- A text that no lexeme before it goes on with, not even an ISO date past one space. -/
structure EndsLexeme (rest : List Char) : Prop where
  head : rest.head?.any continues = false
  clock : ∀ after, rest = ' ' :: after → splitClock? after = none
  zone : Lexeme.splitZone rest = .ok ([], rest)

/-- What ends every date ends every lexeme. -/
theorem EndsDate.endsLexeme (h : EndsDate rest) : EndsLexeme rest where
  head := h.head_any rfl
  clock := h.clock
  zone := h.zone

namespace EndsLexeme

variable (h : EndsLexeme rest)
include h

/-- It begins with no character of a class that a lexeme takes in. -/
theorem head_any {p : Char → Bool} (hp : ∀ c, p c = true → continues c = true) :
    rest.head?.any p = false := by
  cases hhead : rest.head? with
  | none => rfl
  | some c =>
      have hc : continues c = false := by simpa [hhead] using h.head
      exact Bool.eq_false_iff.2 fun hpc => by simp [hp c hpc] at hc

/-- What ends a lexeme does not begin with a digit. -/
theorem head_digit : rest.head?.any Char.isDigit = false :=
  h.head_any fun c hc => by simp [continues, Char.isAlphanum, hc]

/-- What ends a lexeme does not begin with a letter. -/
theorem head_alpha : rest.head?.any Char.isAlpha = false :=
  h.head_any fun c hc => by simp [continues, Char.isAlphanum, hc]

theorem head_alphanum : rest.head?.any Char.isAlphanum = false :=
  h.head_any fun c hc => by simp [continues, hc]

theorem head_unit : rest.head?.any isUnitLetter = false := by
  have hletters : ['d', 'w', 'M', 'Y', 'h', 'm', 's', 'q'].all continues = true := rfl
  exact h.head_any fun c hc => List.all_eq_true.1 hletters c (List.contains_iff_mem.1 hc)

/-- What ends a lexeme does not begin with a character that could go on with it. -/
theorem ne_cons {c : Char} {after : List Char} (hc : continues c = true) : rest ≠ c :: after := by
  rintro rfl
  have hhead : continues c = false := h.head
  rw [hc] at hhead
  cases hhead

end EndsLexeme

/-! ## Lexemes with more text after them -/

namespace Lexeme

/-- A lexeme with more text after it. -/
def followedBy (l : Lexeme) (rest : List Char) : Lexeme :=
  { l with rest := l.rest ++ rest }

@[simp]
theorem text_followedBy (l : Lexeme) (rest : List Char) : (l.followedBy rest).text = l.text :=
  rfl

/-- Behind a lexeme there is its rest, and then what follows. -/
@[simp]
theorem rest_followedBy (l : Lexeme) (rest : List Char) :
    (l.followedBy rest).rest = l.rest ++ rest :=
  rfl

/-- What follows a lexeme does not change its token. -/
@[simp]
theorem token_followedBy (l : Lexeme) (rest : List Char) (pos : Nat) :
    (l.followedBy rest).token pos = l.token pos :=
  rfl

/-- A template is fitted as before, if the text that follows does not fit any of its places. -/
theorem splitTemplate?_append_rest {template : List Char}
    (hplaces : ∀ place ∈ template, rest.head?.any (fitsTemplate place) = false) :
    splitTemplate? template (cs ++ rest) =
      (splitTemplate? template cs).map (Prod.map id (· ++ rest)) := by
  induction template generalizing cs with
  | nil => rfl
  | cons place template ih =>
      obtain ⟨hplace, hplaces⟩ := List.forall_mem_cons.1 hplaces
      cases cs with
      | nil =>
          cases rest with
          | nil => rfl
          | cons c rest =>
              have hc : fitsTemplate place c = false := hplace
              simp [splitTemplate?, hc]
      | cons c cs =>
          by_cases hfits : fitsTemplate place c = true
          · simp [splitTemplate?, hfits, ih hplaces, Function.comp_def, Option.map_map]
          · simp [splitTemplate?, hfits]

section Followed

variable (hrest : EndsLexeme rest)
include hrest

/-- A template is found the same, whatever follows the end of a lexeme. -/
theorem splitTemplate?_followed {template : List Char}
    (hplaces : template.all (fun place => place == '0' || continues place) = true) :
    splitTemplate? template (cs ++ rest) =
      (splitTemplate? template cs).map (Prod.map id (· ++ rest)) := by
  refine splitTemplate?_append_rest fun place hplace => hrest.head_any fun c hc => ?_
  unfold fitsTemplate at hc
  split at hc
  · simp [continues, Char.isAlphanum, hc]
  · rename_i hne
    rw [beq_iff_eq.1 hc]
    simpa [hne] using List.all_eq_true.1 hplaces place hplace

/-- A clock time is found the same, whatever follows the end of a lexeme. -/
theorem splitClock?_followed :
    splitClock? (cs ++ rest) = (splitClock? cs).map (Prod.map id (· ++ rest)) := by
  rw [splitClock?, splitTemplate?_followed hrest rfl, splitClock?]
  cases splitTemplate? clockTemplate cs with
  | none => rfl
  | some split =>
      simp only [Option.map_some, Prod.map]
      rw [splitTemplate?_followed hrest rfl]
      cases splitTemplate? secondsTemplate split.2 <;> rfl

/-! ### Quantities, variables and words -/

/-- A unit is found the same, whatever follows the end of a lexeme. -/
theorem splitUnit_followed :
    splitUnit (cs ++ rest) = ((splitUnit cs).1, (splitUnit cs).2 ++ rest) := by
  cases cs with
  | nil =>
      have hunit := hrest.head_unit
      cases rest with
      | nil => rfl
      | cons c rest =>
          have hc : isUnitLetter c = false := hunit
          simp [splitUnit, hc]
  | cons c cs => by_cases hc : isUnitLetter c = true <;> simp [splitUnit, hc]

/-- A quantity is read the same, whatever follows its end. -/
theorem quantity_followed (sign : List Char) :
    quantity sign (cs ++ rest) = (quantity sign cs).followedBy rest := by
  simp only [quantity, followedBy, takeWhile_append_rest hrest.head_digit,
    dropWhile_append_rest hrest.head_digit, splitUnit_followed hrest]

/-- A sign is read the same, whatever follows its end. -/
theorem signed_followed (sign : Char) :
    signed sign (cs ++ rest) = (signed sign cs).followedBy rest := by
  have hhead : (cs ++ rest).head?.any Char.isDigit = cs.head?.any Char.isDigit := by
    cases cs with
    | nil => exact hrest.head_digit
    | cons c cs => rfl
  rw [signed, hhead, signed]
  split
  · exact quantity_followed hrest [sign]
  · rfl

/-- The name of a variable is read the same, whatever follows its end. -/
theorem varName_followed : varName (cs ++ rest) = (varName cs).followedBy rest := by
  simp only [varName, followedBy, takeWhile_append_rest hrest.head_alphanum,
    dropWhile_append_rest hrest.head_alphanum]

/-- A word is read the same, whatever follows its end. -/
theorem word_followed : word (cs ++ rest) = (word cs).followedBy rest := by
  simp only [word, followedBy, takeWhile_append_rest hrest.head_alphanum,
    dropWhile_append_rest hrest.head_alphanum]

/-! ### ISO dates -/

/-- An offset is found the same, or misses the same. -/
theorem splitOffset_followed :
    splitOffset (cs ++ rest) = (splitOffset cs).map (Prod.map id (· ++ rest)) := by
  simp only [splitOffset, takeWhile_append_rest hrest.head_digit,
    dropWhile_append_rest hrest.head_digit]
  generalize cs.takeWhile Char.isDigit = digits
  generalize cs.dropWhile Char.isDigit = after
  by_cases htwo : digits.length = 2
  · simp only [htwo, if_true]
    cases after with
    | nil =>
        rw [List.nil_append]
        split
        · exact absurd rfl (hrest.ne_cons rfl)
        · rfl
    | cons c after =>
        by_cases hcolon : c = ':'
        · subst hcolon
          simp only [List.cons_append, takeWhile_append_rest hrest.head_digit,
            dropWhile_append_rest hrest.head_digit]
          split <;> rfl
        · simp [hcolon, Except.map]
  · by_cases hfour : digits.length = 4 <;> simp [htwo, hfour, Except.map]

/-- A zone is found the same, or misses the same. -/
theorem splitZone_followed :
    splitZone (cs ++ rest) = (splitZone cs).map (Prod.map id (· ++ rest)) := by
  cases cs with
  | nil => exact hrest.zone
  | cons c cs =>
      by_cases hutc : c = 'Z'
      · subst hutc
        rfl
      by_cases hspace : c = ' '
      · subst hspace
        have hhead : (cs.dropWhile Char.isAlpha ++ rest).head?.any Char.isAlphanum =
            (cs.dropWhile Char.isAlpha).head?.any Char.isAlphanum := by
          cases cs.dropWhile Char.isAlpha with
          | nil => exact hrest.head_alphanum
          | cons d ds => rfl
        simp only [List.cons_append, splitZone, takeWhile_append_rest hrest.head_alpha,
          dropWhile_append_rest hrest.head_alpha, hhead]
        split <;> rfl
      by_cases hsign : c = '+' ∨ c = '-'
      · simp only [List.cons_append, splitZone, hsign, if_true, splitOffset_followed hrest]
        cases splitOffset cs <;> rfl
      · simp [splitZone, hsign, Except.map]

/-- A date with a time is read the same, or fails the same. -/
theorem isoDateTime_followed (dateTime : List Char) :
    isoDateTime dateTime (cs ++ rest) = (isoDateTime dateTime cs).map (followedBy · rest) := by
  rw [isoDateTime, splitZone_followed hrest, isoDateTime]
  cases splitZone cs <;> rfl

/-- A date is read the same, or fails the same. -/
theorem isoDate_followed (date : List Char) :
    isoDate date (cs ++ rest) = (isoDate date cs).map (followedBy · rest) := by
  cases cs with
  | nil =>
      have hdate : isoDate date rest = .ok { kind := .date, text := date, rest := rest } := by
        unfold isoDate
        split
        · exact absurd rfl (hrest.ne_cons rfl)
        · rw [hrest.clock _ rfl]
        · rfl
      exact hdate
  | cons c cs =>
      by_cases htime : c = 'T'
      · subst htime
        simp only [List.cons_append, isoDate, splitClock?_followed hrest]
        cases splitClock? cs with
        | none => rfl
        | some split => exact isoDateTime_followed hrest _
      by_cases hspace : c = ' '
      · subst hspace
        simp only [List.cons_append, isoDate, splitClock?_followed hrest]
        cases splitClock? cs with
        | none => rfl
        | some split => exact isoDateTime_followed hrest _
      · simp [isoDate, htime, hspace, followedBy, Except.map]

/-- What begins with a digit is read the same, or fails the same. -/
theorem numeral_followed : numeral (cs ++ rest) = (numeral cs).map (followedBy · rest) := by
  rw [numeral, splitTemplate?_followed hrest rfl, splitClock?_followed hrest, numeral]
  cases splitTemplate? isoDateTemplate cs with
  | some split => exact isoDate_followed hrest _
  | none =>
      cases splitClock? cs with
      | some split => rfl
      | none => exact congrArg Except.ok (quantity_followed hrest [])

/-! ### Any lexeme -/

/-- A lexeme is read as before when more text follows, and so is a flaw. -/
theorem read_followed (c : Char) :
    read c (cs ++ rest) = (read c cs).map (followedBy · rest) := by
  have hdot (after : List Char) : rest ≠ '.' :: after := hrest.ne_cons rfl
  have hnumeral : numeral (c :: cs ++ rest) = (numeral (c :: cs)).map (followedBy · rest) :=
    numeral_followed hrest
  have hword : word (c :: cs ++ rest) = (word (c :: cs)).followedBy rest := word_followed hrest
  unfold read
  split
  · rfl
  split
  · rfl
  split
  · rfl
  split
  · rfl
  split
  · exact congrArg Except.ok (signed_followed hrest c)
  split
  · exact congrArg Except.ok (varName_followed hrest)
  split
  · -- Three dots are never made up of what comes before and after.
    rcases cs with _ | ⟨d, _ | ⟨e, cs⟩⟩ <;> grind [Except.map, followedBy]
  split
  · exact hnumeral
  split
  · exact congrArg Except.ok hword
  · rfl

end Followed

end Lexeme

/-! ## Tokens of two texts -/

/-- The tokens of a text come before those of the text after it, and so does a flaw. -/
theorem tokensFrom_append (hrest : EndsLexeme rest) (pos : Nat) (cs : List Char) :
    tokensFrom pos (cs ++ rest) = (tokensFrom pos cs).bind fun tokens =>
      (tokensFrom (pos + byteLength cs) rest).map (beforeEof tokens ++ ·) := by
  induction pos, cs using induction_of_lexemes with
  | blanks pos gap hgap =>
      rw [tokensFrom_blanks pos hgap, tokensFrom_of_blanks pos hgap]
      cases tokensFrom (pos + byteLength gap) rest <;> rfl
  | flaw pos gap c after flaw hgap hc hread =>
      have hread' : Lexeme.read c (after ++ rest) = .error flaw := by
        rw [Lexeme.read_followed hrest, hread]
        rfl
      rw [List.append_assoc, List.cons_append, tokensFrom_of_flaw pos hgap hc hread',
        tokensFrom_of_flaw pos hgap hc hread]
      rfl
  | lexeme pos gap c after l hgap hc hread ih =>
      have hread' : Lexeme.read c (after ++ rest) = .ok (l.followedBy rest) := by
        rw [Lexeme.read_followed hrest, hread]
        rfl
      have hbytes : pos + byteLength (gap ++ c :: after) =
          pos + byteLength gap + byteLength l.text + byteLength l.rest := by
        rw [← (Lexeme.read_append hread).1, byteLength_append, byteLength_append]
        omega
      have hbefore (start : Nat) (tail : List Token) :
          beforeEof (l.token start :: tail) = l.token start :: beforeEof tail :=
        List.takeWhile_cons_of_pos (decide_eq_true (Lexeme.shape_of_read hread).kind_ne_eof)
      rw [List.append_assoc, List.cons_append, tokensFrom_of_lexeme pos hgap hc hread',
        tokensFrom_of_lexeme pos hgap hc hread, hbytes, Lexeme.text_followedBy,
        Lexeme.rest_followedBy, Lexeme.token_followedBy, ih]
      cases tokensFrom (pos + byteLength gap + byteLength l.text) l.rest with
      | error error => rfl
      | ok tail =>
          simp only [Except.map, Except.bind, hbefore]
          cases tokensFrom (pos + byteLength gap + byteLength l.text + byteLength l.rest) rest <;>
            rfl

/-- What the tokens of two texts are. -/
theorem exists_tokensFrom_append {pos : Nat} {tokens : List Token} (hrest : EndsLexeme rest)
    (h : tokensFrom pos (cs ++ rest) = .ok tokens) :
    ∃ first second, tokensFrom pos cs = .ok first ∧
      tokensFrom (pos + byteLength cs) rest = .ok second ∧ tokens = beforeEof first ++ second := by
  rw [tokensFrom_append hrest] at h
  cases hfirst : tokensFrom pos cs with
  | error e =>
      rw [hfirst] at h
      cases h
  | ok first =>
      cases hsecond : tokensFrom (pos + byteLength cs) rest with
      | error e =>
          rw [hfirst, hsecond] at h
          cases h
      | ok second =>
          rw [hfirst, hsecond] at h
          exact ⟨first, second, rfl, rfl, (Except.ok.inj h).symm⟩

/-! ## Words of two texts -/

/-- The words of a text come before those of the text after it, wherever it begins. -/
theorem scans_append {pos : Nat} {tokens : List Token} {us : List Word}
    (h : tokensFrom pos cs = .ok tokens) (hrest : EndsLexeme rest) (hscans : Scans rest us) :
    Scans (cs ++ rest) (words (beforeEof tokens) ++ us) := by
  intro start
  obtain ⟨ts, hts, hwords⟩ := exists_tokensFrom h start
  obtain ⟨later, stop, hlater, rfl⟩ := hscans (start + byteLength cs)
  refine ⟨beforeEof ts ++ later, stop, ?_, by rw [words_append, hwords]⟩
  rw [tokensFrom_append hrest, hts, List.append_assoc]
  change (tokensFrom (start + byteLength cs) rest).map _ = _
  rw [hlater]
  rfl

end Almanac
