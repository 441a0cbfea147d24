import Almanac.Proofs.IsoDate.Token

/-!
# The words of the language

A word is a token without its place.  The words of each kind have a shape that can be
told from their characters alone, without a word on how a text is read.  Every lexeme
has the shape of its kind; and whatever has a shape is read as one lexeme, where a blank
or nothing follows it.  An ISO date needs more than that, since it can go on past one
space.

Main definitions:

- `Word`, `Token.word`: a kind and a text.
- `Shape`: the shape that the words of a kind have.

Main results:

- Theorem `Lexeme.shape_of_read`: every lexeme has the shape of its kind.
- Theorem `Lexeme.read_of_shape`: what has a shape is read as one lexeme.
-/

namespace Almanac

open Text

variable {cs rest text digits unit : List Char} {kind : TokenKind}

/-- A token without its place in the source. -/
structure Word where
  kind : TokenKind
  text : String
deriving DecidableEq, Repr

/-- What a token says, wherever it stands. -/
def Token.word (t : Token) : Word :=
  ⟨t.kind, t.text⟩

@[simp]
theorem Token.kind_word (t : Token) : t.word.kind = t.kind :=
  rfl

@[simp]
theorem Token.text_word (t : Token) : t.word.text = t.text :=
  rfl

/-- What tokens say, wherever they stand. -/
def words (tokens : List Token) : List Word :=
  tokens.map Token.word

/-- The words of tokens in two parts. -/
@[simp]
theorem words_append (a b : List Token) : words (a ++ b) = words a ++ words b :=
  List.map_append

@[simp]
theorem words_cons (t : Token) (ts : List Token) : words (t :: ts) = t.word :: words ts :=
  rfl

@[simp]
theorem words_nil : words [] = [] :=
  rfl

/-- There are no words without tokens. -/
theorem words_eq_nil_iff {ts : List Token} : words ts = [] ↔ ts = [] :=
  List.map_eq_nil_iff

/-- The first word is that of the first token. -/
theorem words_eq_cons_iff {ts : List Token} {w : Word} {us : List Word} :
    words ts = w :: us ↔ ∃ t after, ts = t :: after ∧ t.word = w ∧ words after = us :=
  List.map_eq_cons_iff

theorem words_eq_singleton_iff {ts : List Token} {w : Word} :
    words ts = [w] ↔ ∃ t, ts = [t] ∧ t.word = w :=
  List.map_eq_singleton_iff

/-- Words in two parts are those of tokens in two parts. -/
theorem words_eq_append_iff {ts : List Token} {us vs : List Word} :
    words ts = us ++ vs ↔ ∃ front back, ts = front ++ back ∧ words front = us ∧ words back = vs :=
  List.map_eq_append_iff

/-! ## Shapes -/

/-- The signs of a number. -/
def IsSign (c : Char) : Prop :=
  c = '+' ∨ c = '-'

/-- A number without sign and unit. -/
structure IsNumber (digits : List Char) : Prop where
  ne_nil : digits ≠ []
  isDigit : ∀ c ∈ digits, c.isDigit = true

/-- The letter of a unit, or nothing. -/
def IsUnit? (unit : List Char) : Prop :=
  unit = [] ∨ ∃ letter, isUnitLetter letter = true ∧ unit = [letter]

/-- A letter, and letters and digits after it. -/
def IsName (text : List Char) : Prop :=
  ∃ c name, text = c :: name ∧ c.isAlpha = true ∧ ∀ d ∈ name, d.isAlphanum = true

/-- Whether a text is a keyword, in whatever case it is written. -/
def namesKeyword (text : List Char) : Bool :=
  keywords.contains (String.ofList (text.map Char.toLower))

/-- The shapes of the words of each kind, except the one for the end of a source. -/
inductive Shape : TokenKind → List Char → Prop
  | pipe : Shape .pipe ['|']
  | comma : Shape .comma [',']
  | lparen : Shape .lparen ['(']
  | rparen : Shape .rparen [')']
  | range : Shape .range ['.', '.', '.']
  | operator {sign : Char} (hsign : IsSign sign) : Shape .operator [sign]
  | number {digits : List Char} (hdigits : IsNumber digits) : Shape .number digits
  | unsigned {digits : List Char} {letter : Char} (hdigits : IsNumber digits)
      (hletter : isUnitLetter letter = true) : Shape .unit (digits ++ [letter])
  | signed {sign : Char} {digits unit : List Char} (hsign : IsSign sign)
      (hdigits : IsNumber digits) (hunit : IsUnit? unit) : Shape .unit (sign :: (digits ++ unit))
  | time (t : IsoTime) : Shape .time t.text
  | isoDate (d : IsoDate) : Shape .date d.text
  | var {name : List Char} (hname : ∀ c ∈ name, c.isAlphanum = true) : Shape .var ('$' :: name)
  | keyword {text : List Char} (htext : IsName text) (hkeyword : namesKeyword text = true) :
      Shape .keyword text
  | name {text : List Char} (htext : IsName text) (hkeyword : namesKeyword text = false) :
      Shape .date text

/-- No word stands for the end of the source. -/
theorem Shape.kind_ne_eof (h : Shape kind text) : kind ≠ .eof := by
  cases h <;> exact TokenKind.noConfusion

/-! ## Every lexeme has a shape -/

/-- What is split off as a unit is one, or nothing. -/
theorem isUnit?_splitUnit (cs : List Char) : IsUnit? (Lexeme.splitUnit cs).1 := by
  unfold Lexeme.splitUnit
  split
  · exact .inl rfl
  · split
    · rename_i hletter
      exact .inr ⟨_, hletter, rfl⟩
    · exact .inl rfl

/-- All digits from the first one on are a number. -/
theorem isNumber_takeWhile {c : Char} (hc : c.isDigit = true) (rest : List Char) :
    IsNumber ((c :: rest).takeWhile Char.isDigit) where
  ne_nil := by simp [hc]
  isDigit := fun _ hd => List.mem_takeWhile_imp hd

namespace Lexeme

/-- A quantity is read in its shape. -/
theorem shape_quantity {c : Char} (hc : c.isDigit = true) (rest : List Char) :
    Shape (quantity [] (c :: rest)).kind (quantity [] (c :: rest)).text := by
  have hdigits := isNumber_takeWhile hc rest
  rcases isUnit?_splitUnit ((c :: rest).dropWhile Char.isDigit) with hunit | ⟨letter, hl, hunit⟩
  · simpa [quantity, hunit] using Shape.number hdigits
  · simpa [quantity, hunit] using Shape.unsigned hdigits hl

/-- What begins with a sign is read in its shape. -/
theorem shape_signed {sign : Char} (hsign : IsSign sign) (rest : List Char) :
    Shape (signed sign rest).kind (signed sign rest).text := by
  unfold signed
  cases rest with
  | nil => exact Shape.operator hsign
  | cons c rest =>
      split
      · rename_i hc
        exact Shape.signed hsign (isNumber_takeWhile hc rest) (isUnit?_splitUnit _)
      · exact Shape.operator hsign

/-- A word is read in its shape. -/
theorem shape_word {c : Char} (hc : c.isAlpha = true) (rest : List Char) :
    Shape (word (c :: rest)).kind (word (c :: rest)).text := by
  have halnum : c.isAlphanum = true := by simp [Char.isAlphanum, hc]
  have hname : IsName ((c :: rest).takeWhile Char.isAlphanum) :=
    ⟨c, rest.takeWhile Char.isAlphanum, by simp [halnum], hc,
      fun _ hd => List.mem_takeWhile_imp hd⟩
  cases hkeyword : namesKeyword ((c :: rest).takeWhile Char.isAlphanum) with
  | true =>
      have hkind : (word (c :: rest)).kind = .keyword := if_pos hkeyword
      rw [hkind]
      exact Shape.keyword hname hkeyword
  | false =>
      have hkind : (word (c :: rest)).kind = .date :=
        if_neg (Bool.eq_false_iff.1 hkeyword)
      rw [hkind]
      exact Shape.name hname hkeyword

/-- What is read behind a date is part of it. -/
theorem kind_of_isoDate {date : List Char} {l : Lexeme} (h : isoDate date cs = .ok l) :
    l.kind = .date := by
  have hdateTime {dateTime after : List Char} (h : isoDateTime dateTime after = .ok l) :
      l.kind = .date := by
    unfold isoDateTime at h
    split at h <;> cases h
    rfl
  unfold isoDate at h
  split at h
  · split at h
    · exact hdateTime h
    · cases h
  · split at h
    · exact hdateTime h
    · cases h
      rfl
  · cases h
    rfl

/-- What begins with a digit is read in its shape. -/
theorem shape_numeral {c : Char} {l : Lexeme} (hc : c.isDigit = true)
    (h : numeral (c :: rest) = .ok l) : Shape l.kind l.text := by
  by_cases hkind : l.kind = .date
  · obtain ⟨d, htext⟩ := exists_isoDate_of_numeral h hkind
    rw [hkind, htext]
    exact Shape.isoDate d
  · unfold numeral at h
    split at h
    · exact absurd (kind_of_isoDate h) hkind
    · split at h
      · rename_i clock after hclock
        obtain ⟨t, rfl⟩ := exists_isoTime_of_splitClock? hclock
        cases h
        exact Shape.time t
      · cases h
        exact shape_quantity hc rest

/-- Every lexeme has the shape of its kind. -/
theorem shape_of_read {c : Char} {l : Lexeme} (h : read c rest = .ok l) :
    Shape l.kind l.text := by
  unfold read at h
  split at h
  · rename_i hc
    cases h
    exact hc ▸ Shape.pipe
  split at h
  · rename_i hc
    cases h
    exact hc ▸ Shape.comma
  split at h
  · rename_i hc
    cases h
    exact hc ▸ Shape.lparen
  split at h
  · rename_i hc
    cases h
    exact hc ▸ Shape.rparen
  split at h
  · rename_i hsign
    cases h
    exact shape_signed hsign rest
  split at h
  · cases h
    exact Shape.var fun _ hd => List.mem_takeWhile_imp hd
  split at h
  · split at h
    · cases h
      exact Shape.range
    · cases h
  split at h
  · rename_i hc
    exact shape_numeral hc h
  split at h
  · rename_i hc
    cases h
    exact shape_word hc rest
  · cases h

/-! ## What has a shape is a lexeme -/

/-- A unit is split off as it is written, if the word ends behind it. -/
theorem splitUnit_append_of_isUnit? (hunit : IsUnit? unit) (hrest : EndsWord rest) :
    splitUnit (unit ++ rest) = (unit, rest) := by
  rcases hunit with rfl | ⟨letter, hletter, rfl⟩
  · have hany := hrest.head_any (p := isUnitLetter) rfl
    cases rest with
    | nil => rfl
    | cons c rest =>
        have hc : isUnitLetter c = false := hany
        simp [splitUnit, hc]
  · simp [splitUnit, hletter]

/-- A unit and what follows it go on with no character of a class that has neither the
letters of units nor blanks. -/
theorem head_any_unit_append {p : Char → Bool} (hunit : IsUnit? unit) (hrest : EndsWord rest)
    (hletters : ['d', 'w', 'M', 'Y', 'h', 'm', 's', 'q'].any p = false)
    (hblanks : asciiBlanks.any p = false) : (unit ++ rest).head?.any p = false := by
  rcases hunit with rfl | ⟨letter, hletter, rfl⟩
  · exact hrest.head_any hblanks
  · have hmem : letter ∈ ['d', 'w', 'M', 'Y', 'h', 'm', 's', 'q'] := List.contains_iff_mem.1 hletter
    exact Bool.eq_false_of_not_eq_true (List.any_eq_false.1 hletters letter hmem)

/-- Digits with a unit or without are taken in whole. -/
theorem quantity_append_rest (sign : List Char) (hdigits : IsNumber digits) (hunit : IsUnit? unit)
    (hrest : EndsWord rest) :
    quantity sign (digits ++ (unit ++ rest)) =
      { kind := if sign.isEmpty && unit.isEmpty then .number else .unit
        text := sign ++ digits ++ unit
        rest := rest } := by
  have hhead := head_any_unit_append (p := Char.isDigit) hunit hrest rfl rfl
  simp only [quantity, takeWhile_append_of_head hdigits.isDigit hhead,
    dropWhile_append_of_head hdigits.isDigit hhead, splitUnit_append_of_isUnit? hunit hrest]

/-- What fits neither a date nor a time of day is a number. -/
theorem numeral_digits {after : List Char} (hdigits : IsNumber digits)
    (hdigit : after.head?.any Char.isDigit = false) (hdash : after.head?.any (· == '-') = false)
    (hcolon : after.head?.any (· == ':') = false) :
    numeral (digits ++ after) = .ok (quantity [] (digits ++ after)) := by
  have hafter : (digits ++ after).dropWhile Char.isDigit = after :=
    dropWhile_append_of_head hdigits.isDigit hdigit
  -- The digits of a text that fits a template end at the sign that the template has there.
  have hfits {width n : Nat} {sign : Char} {tail : List Char} (hsign : sign.isDigit = false)
      (h : digits ++ after = fixedDigits width n ++ sign :: tail) : after = sign :: tail := by
    rw [h, dropWhile_append_of_head (isDigit_fixedDigits width n) (by simp [hsign])] at hafter
    exact hafter.symm
  have hdate : splitTemplate? isoDateTemplate (digits ++ after) = none := by
    cases hsplit : splitTemplate? isoDateTemplate (digits ++ after) with
    | none => rfl
    | some split =>
        obtain ⟨hshape, htext⟩ := splitTemplate?_eq_some_iff.1 hsplit
        obtain ⟨year, month, day, hfront⟩ := fits_isoDateTemplate_iff.1 hshape
        rw [hfront, List.append_assoc, List.append_assoc, List.cons_append] at htext
        rw [hfits rfl htext] at hdash
        cases hdash
  have hclock : splitClock? (digits ++ after) = none := by
    cases hsplit : splitClock? (digits ++ after) with
    | none => rfl
    | some split =>
        obtain ⟨t, ht⟩ := exists_isoTime_of_splitClock? hsplit
        have htext := (splitClock?_append hsplit).1
        rw [ht, IsoTime.text, List.append_assoc, List.append_assoc, List.cons_append] at htext
        rw [hfits rfl htext.symm] at hcolon
        cases hcolon
  simp only [numeral, hdate, hclock]

/-- A number with a unit is read as a quantity. -/
theorem numeral_unit (hdigits : IsNumber digits) (hunit : IsUnit? unit) (hrest : EndsWord rest) :
    numeral (digits ++ (unit ++ rest)) = .ok (quantity [] (digits ++ (unit ++ rest))) :=
  numeral_digits hdigits (head_any_unit_append hunit hrest rfl rfl)
    (head_any_unit_append hunit hrest rfl rfl) (head_any_unit_append hunit hrest rfl rfl)

/-- A time is read as it is written. -/
theorem numeral_time (t : IsoTime) (hrest : EndsWord rest) :
    numeral (t.text ++ rest) = .ok { kind := .time, text := t.text, rest := rest } := by
  have hhead : rest.head? ≠ some ':' := fun h => absurd (hrest.blank ':' h) (by decide)
  have hdate : splitTemplate? isoDateTemplate (t.text ++ rest) = none := by
    cases hsplit : splitTemplate? isoDateTemplate (t.text ++ rest) with
    | none => rfl
    | some split =>
        obtain ⟨hshape, htext⟩ := splitTemplate?_eq_some_iff.1 hsplit
        obtain ⟨year, month, day, hfront⟩ := fits_isoDateTemplate_iff.1 hshape
        -- A time of day has a colon where a date has its third digit.
        have hthird := congrArg (fun cs => cs[2]?) htext
        simp [hfront, IsoTime.text, fixedDigits] at hthird
  simp only [numeral, hdate, splitClock?_append_of_head t hhead]

/-- What begins with a digit is read as a numeral. -/
theorem read_of_numeral {c : Char} {l : Lexeme} (htext : text = c :: cs)
    (hc : c.isDigit = true) (h : numeral (text ++ rest) = .ok l) :
    ∃ d after, text = d :: after ∧ isAsciiBlank d = false ∧ read d (after ++ rest) = .ok l := by
  refine ⟨c, cs, htext, not_isAsciiBlank_of_isDigit hc, ?_⟩
  rw [read_of_isDigit hc, ← List.cons_append, ← htext, h]

/-- What begins with a letter is read as a word. -/
theorem read_of_isAlpha {c : Char} (hc : c.isAlpha = true) (rest : List Char) :
    isAsciiBlank c = false ∧ read c rest = .ok (word (c :: rest)) := by
  have hne (d : Char) (hd : d.isAlpha = false) : c ≠ d := by
    rintro rfl
    rw [hc] at hd
    cases hd
  have hdigit : c.isDigit = false := by
    cases hdigit : c.isDigit with
    | false => rfl
    | true =>
        rw [isAlpha_of_isDigit hdigit] at hc
        cases hc
  constructor
  · simp [isAsciiBlank, hne '\t' rfl, hne '\n' rfl, hne '\x0c' rfl, hne '\r' rfl, hne ' ' rfl]
  · simp [read, hc, hdigit, hne '|' rfl, hne ',' rfl, hne '(' rfl, hne ')' rfl, hne '+' rfl,
      hne '-' rfl, hne '$' rfl, hne '.' rfl]

/-- What begins with a sign is read as a signed quantity. -/
theorem read_sign {sign : Char} (hsign : IsSign sign) (rest : List Char) :
    isAsciiBlank sign = false ∧ read sign rest = .ok (signed sign rest) := by
  rcases hsign with rfl | rfl <;> exact ⟨rfl, rfl⟩

/-- A name is read as it is written, if the word ends behind it. -/
theorem word_append (htext : IsName text) (hrest : EndsWord rest) :
    word (text ++ rest) =
      { kind := if namesKeyword text then .keyword else .date, text := text, rest := rest } := by
  obtain ⟨c, name, rfl, hc, hname⟩ := htext
  have halnum : ∀ d ∈ c :: name, d.isAlphanum = true :=
    List.forall_mem_cons.2 ⟨by simp [Char.isAlphanum, hc], hname⟩
  have hhead := hrest.head_any (p := Char.isAlphanum) rfl
  simp only [word, takeWhile_append_of_head halnum hhead, dropWhile_append_of_head halnum hhead]
  rfl

/-- A name is read as a keyword, or as a date if it is none. -/
theorem read_name (htext : IsName text) (hrest : EndsWord rest) :
    ∃ c after, text = c :: after ∧ isAsciiBlank c = false ∧ read c (after ++ rest) = .ok
      { kind := if namesKeyword text then .keyword else .date, text := text, rest := rest } := by
  obtain ⟨c, name, rfl, hc, hname⟩ := htext
  obtain ⟨hblank, hread⟩ := read_of_isAlpha hc (name ++ rest)
  refine ⟨c, name, rfl, hblank, ?_⟩
  rw [hread, ← List.cons_append, word_append ⟨c, name, rfl, hc, hname⟩ hrest]

/-- What has a shape is read as one lexeme, if what follows is no part of it. -/
theorem read_of_shape (h : Shape kind text) (hrest : EndsWord rest)
    (hdate : kind = .date → EndsDate rest) :
    ∃ c after, text = c :: after ∧ isAsciiBlank c = false ∧
      read c (after ++ rest) = .ok { kind := kind, text := text, rest := rest } := by
  cases h with
  | pipe => exact ⟨_, _, rfl, rfl, rfl⟩
  | comma => exact ⟨_, _, rfl, rfl, rfl⟩
  | lparen => exact ⟨_, _, rfl, rfl, rfl⟩
  | rparen => exact ⟨_, _, rfl, rfl, rfl⟩
  | range => exact ⟨_, _, rfl, rfl, rfl⟩
  | operator hsign =>
      obtain ⟨hblank, hread⟩ := read_sign hsign rest
      refine ⟨_, [], rfl, hblank, ?_⟩
      rw [List.nil_append, hread, signed, hrest.head_any (p := Char.isDigit) rfl]
      rfl
  | number hdigits =>
      have hunit : IsUnit? [] := .inl rfl
      obtain ⟨c, digits, rfl⟩ := List.exists_cons_of_ne_nil hdigits.ne_nil
      refine read_of_numeral rfl (hdigits.isDigit c (List.mem_cons_self ..)) ?_
      have hnumeral := numeral_unit hdigits hunit hrest
      rw [quantity_append_rest [] hdigits hunit hrest] at hnumeral
      simpa using hnumeral
  | unsigned hdigits hletter =>
      have hunit : IsUnit? [_] := .inr ⟨_, hletter, rfl⟩
      obtain ⟨c, digits, rfl⟩ := List.exists_cons_of_ne_nil hdigits.ne_nil
      refine read_of_numeral (List.cons_append ..) (hdigits.isDigit c (List.mem_cons_self ..)) ?_
      have hnumeral := numeral_unit hdigits hunit hrest
      rw [quantity_append_rest [] hdigits hunit hrest] at hnumeral
      simpa using hnumeral
  | @signed sign digits unit hsign hdigits hunit =>
      obtain ⟨hblank, hread⟩ := read_sign hsign (digits ++ unit ++ rest)
      refine ⟨sign, _, rfl, hblank, ?_⟩
      have hhead : (digits ++ (unit ++ rest)).head?.any Char.isDigit = true := by
        obtain ⟨c, digits, rfl⟩ := List.exists_cons_of_ne_nil hdigits.ne_nil
        exact hdigits.isDigit c (List.mem_cons_self ..)
      rw [hread, List.append_assoc, Lexeme.signed, hhead, if_pos rfl,
        quantity_append_rest [sign] hdigits hunit hrest]
      rfl
  | time t =>
      obtain ⟨c, after, htext, hc⟩ := t.exists_text_eq_cons
      exact read_of_numeral htext hc (numeral_time t hrest)
  | isoDate d =>
      obtain ⟨c, after, htext, hc⟩ := d.exists_text_eq_cons
      exact read_of_numeral htext hc (numeral_isoDate d (hdate rfl))
  | @var name hname =>
      have hhead := hrest.head_any (p := Char.isAlphanum) rfl
      refine ⟨'$', name, rfl, rfl, ?_⟩
      simp [read, varName, takeWhile_append_of_head hname hhead,
        dropWhile_append_of_head hname hhead]
  | keyword htext hkeyword => simpa [hkeyword] using read_name htext hrest
  | name htext hkeyword => simpa [hkeyword] using read_name htext hrest

end Lexeme

end Almanac
