import Almanac.Text.Blank
import Almanac.Text.Decimal
import Almanac.Token.Basic
import Almanac.Zone.Abbreviation

/-!
# Cutting a text into tokens

The text is read from left to right.  Blanks separate tokens and are dropped; the
longest token that can start at a place is read there.  What begins with a digit is an
ISO date if it has the shape of one, else a time of day if it has that shape, else a
number.  An ISO date takes in a time of day that follows a `T` or one space, and then a
zone: `Z`, a numeric offset, or one space and a known abbreviation.

Main definitions:

- `Lexeme`: a token as it stands in the source, with the text after it.
- `Lexeme.read`: the lexeme at the start of a text.
- `tokenize`: all tokens of a text, with a last one for its end.
- Theorem `Lexeme.read_append`: a lexeme and what follows it make up the text.
-/

namespace Almanac

open Text

/-- A piece of the source that makes one token. -/
structure Lexeme where
  kind : TokenKind
  /-- The characters of the source. -/
  text : List Char
  /-- The characters that follow. -/
  rest : List Char
deriving DecidableEq, Repr

/-! ## Shapes -/

/-- Whether a character fits a place of a template: any digit fits `0`, and else a
character fits itself. -/
def fitsTemplate (place c : Char) : Bool :=
  if place = '0' then c.isDigit else c == place

/-- The start of a text that fits a template, and the text after it. -/
def splitTemplate? : List Char → List Char → Option (List Char × List Char)
  | [], cs => some ([], cs)
  | _ :: _, [] => none
  | place :: template, c :: cs =>
    if fitsTemplate place c then
      (splitTemplate? template cs).map fun (front, rest) => (c :: front, rest)
    else none

/-- The shape of an ISO date. -/
def isoDateTemplate : List Char :=
  ['0', '0', '0', '0', '-', '0', '0', '-', '0', '0']

/-- The shape of hours and minutes. -/
def clockTemplate : List Char :=
  ['0', '0', ':', '0', '0']

/-- The shape of the seconds that can follow hours and minutes. -/
def secondsTemplate : List Char :=
  [':', '0', '0']

/-- The time of day, with seconds or without, that a text starts with. -/
def splitClock? (cs : List Char) : Option (List Char × List Char) :=
  match splitTemplate? clockTemplate cs with
  | none => none
  | some (clock, rest) =>
    match splitTemplate? secondsTemplate rest with
    | some (seconds, rest) => some (clock ++ seconds, rest)
    | none => some (clock, rest)

/-- The letters that can stand for a unit after a number. -/
def isUnitLetter (c : Char) : Bool :=
  ['d', 'w', 'M', 'Y', 'h', 'm', 's', 'q'].contains c

namespace Lexeme

/-! ## Quantities, variables and words -/

/-- The unit letter that a text starts with, if it does. -/
def splitUnit : List Char → List Char × List Char
  | [] => ([], [])
  | c :: cs => if isUnitLetter c then ([c], cs) else ([], c :: cs)

/-- A run of digits, with an optional unit letter after it, that follows `sign`. -/
def quantity (sign cs : List Char) : Lexeme :=
  let digits := cs.takeWhile Char.isDigit
  let (unit, rest) := splitUnit (cs.dropWhile Char.isDigit)
  { kind := if sign.isEmpty && unit.isEmpty then .number else .unit
    text := sign ++ digits ++ unit
    rest := rest }

/-- A dollar sign and the letters and digits after it, of which there may be none. -/
def varName (cs : List Char) : Lexeme where
  kind := .var
  text := '$' :: cs.takeWhile Char.isAlphanum
  rest := cs.dropWhile Char.isAlphanum

/-- A word of letters and digits, a keyword in whatever case it is written. -/
def word (cs : List Char) : Lexeme :=
  let text := cs.takeWhile Char.isAlphanum
  { kind := if keywords.contains (String.ofList (text.map Char.toLower)) then .keyword else .date
    text := text
    rest := cs.dropWhile Char.isAlphanum }

/-! ## ISO dates -/

/-- The numeric offset after a sign: two digits, four digits, or twice two with a colon
between them.  An error holds what was read. -/
def splitOffset (cs : List Char) : Except (List Char) (List Char × List Char) :=
  let digits := cs.takeWhile Char.isDigit
  let rest := cs.dropWhile Char.isDigit
  if digits.length = 2 then
    match rest with
    | ':' :: afterColon =>
      let minutes := afterColon.takeWhile Char.isDigit
      if minutes.length = 2 then
        .ok (digits ++ ':' :: minutes, afterColon.dropWhile Char.isDigit)
      else .error (digits ++ ':' :: minutes)
    | _ => .ok (digits, rest)
  else if digits.length = 4 then .ok (digits, rest)
  else .error digits

/-- The zone that a text starts with, possibly none.  An error holds what was read. -/
def splitZone (cs : List Char) : Except (List Char) (List Char × List Char) :=
  match cs with
  | 'Z' :: rest => .ok (['Z'], rest)
  | ' ' :: afterSpace =>
    let name := afterSpace.takeWhile Char.isAlpha
    let rest := afterSpace.dropWhile Char.isAlpha
    if Zone.minAbbreviationLength ≤ name.length ∧ name.length ≤ Zone.maxAbbreviationLength ∧
        !rest.head?.any Char.isAlphanum ∧ Zone.isAbbreviation name then
      .ok (' ' :: name, rest)
    else .ok ([], cs)
  | sign :: afterSign =>
    if sign = '+' ∨ sign = '-' then
      match splitOffset afterSign with
      | .ok (offset, rest) => .ok (sign :: offset, rest)
      | .error readSoFar => .error (sign :: readSoFar)
    else .ok ([], cs)
  | [] => .ok ([], [])

/-- A date and a time of day, with the zone after them. -/
def isoDateTime (dateTime cs : List Char) : Except LexFlaw Lexeme :=
  match splitZone cs with
  | .ok (zone, rest) => .ok { kind := .date, text := dateTime ++ zone, rest := rest }
  | .error readSoFar => .error (.malformedIsoDate (String.ofList (dateTime ++ readSoFar)))

/-- An ISO date, with the time of day and the zone after it if there are any.  A `T`
must be followed by a time; a space need not be. -/
def isoDate (date cs : List Char) : Except LexFlaw Lexeme :=
  match cs with
  | 'T' :: afterT =>
    match splitClock? afterT with
    | some (clock, rest) => isoDateTime (date ++ 'T' :: clock) rest
    | none => .error (.malformedIsoDate (String.ofList (date ++ ['T'])))
  | ' ' :: afterSpace =>
    match splitClock? afterSpace with
    | some (clock, rest) => isoDateTime (date ++ ' ' :: clock) rest
    | none => .ok { kind := .date, text := date, rest := cs }
  | cs => .ok { kind := .date, text := date, rest := cs }

/-- What begins with a digit: an ISO date, a time of day or a number. -/
def numeral (cs : List Char) : Except LexFlaw Lexeme :=
  match splitTemplate? isoDateTemplate cs with
  | some (date, rest) => isoDate date rest
  | none =>
    match splitClock? cs with
    | some (clock, rest) => .ok { kind := .time, text := clock, rest := rest }
    | none => .ok (quantity [] cs)

/-! ## Any lexeme -/

/-- The lexeme of one character. -/
def single (kind : TokenKind) (c : Char) (rest : List Char) : Lexeme where
  kind := kind
  text := [c]
  rest := rest

/-- A sign: part of a number if a digit follows, else an operator. -/
def signed (c : Char) (rest : List Char) : Lexeme :=
  if rest.head?.any Char.isDigit then quantity [c] rest else single .operator c rest

/-- The lexeme that starts with the character `c`, which is not a blank. -/
def read (c : Char) (rest : List Char) : Except LexFlaw Lexeme :=
  if c = '|' then .ok (single .pipe c rest)
  else if c = ',' then .ok (single .comma c rest)
  else if c = '(' then .ok (single .lparen c rest)
  else if c = ')' then .ok (single .rparen c rest)
  else if c = '+' ∨ c = '-' then .ok (signed c rest)
  else if c = '$' then .ok (varName rest)
  else if c = '.' then
    match rest with
    | '.' :: '.' :: rest => .ok { kind := .range, text := ['.', '.', '.'], rest := rest }
    | _ => .error .malformedRange
  else if c.isDigit then numeral (c :: rest)
  else if c.isAlpha then .ok (word (c :: rest))
  else .error (.unexpectedCharacter c)

/-- The token of a lexeme that starts at a byte of the source. -/
def token (l : Lexeme) (pos : Nat) : Token where
  kind := l.kind
  text := String.ofList (if l.kind = .keyword then l.text.map Char.toLower else l.text)
  pos := pos

/-! ## A lexeme is the start of the text -/

/-- What fits a template, and the rest, make up the text. -/
theorem splitTemplate?_append {template cs front rest : List Char}
    (h : splitTemplate? template cs = some (front, rest)) : front ++ rest = cs := by
  induction template generalizing cs front with
  | nil => simp only [splitTemplate?, Option.some.injEq, Prod.mk.injEq] at h; simp [← h.1, h.2]
  | cons place template ih =>
    cases cs with
    | nil => simp [splitTemplate?] at h
    | cons c cs =>
      simp only [splitTemplate?] at h
      split at h
      · simp only [Option.map_eq_some_iff, Prod.mk.injEq, Prod.exists] at h
        obtain ⟨a, b, hab, rfl, rfl⟩ := h
        simp [ih hab]
      · cases h

/-- What fits a template is as long as the template. -/
theorem splitTemplate?_length {template cs front rest : List Char}
    (h : splitTemplate? template cs = some (front, rest)) : front.length = template.length := by
  induction template generalizing cs front with
  | nil => simp only [splitTemplate?, Option.some.injEq, Prod.mk.injEq] at h; simp [← h.1]
  | cons place template ih =>
    cases cs with
    | nil => simp [splitTemplate?] at h
    | cons c cs =>
      simp only [splitTemplate?] at h
      split at h
      · simp only [Option.map_eq_some_iff, Prod.mk.injEq, Prod.exists] at h
        obtain ⟨a, b, hab, rfl, rfl⟩ := h
        simp [ih hab]
      · cases h

/-- A time of day, and the rest, make up the text. -/
theorem splitClock?_append {cs clock rest : List Char}
    (h : splitClock? cs = some (clock, rest)) : clock ++ rest = cs ∧ clock ≠ [] := by
  unfold splitClock? at h
  split at h
  · cases h
  · rename_i front after hfront
    have hne : front ≠ [] := by
      intro hnil
      have := splitTemplate?_length hfront
      simp [hnil, clockTemplate] at this
    split at h
    · rename_i seconds after' hseconds
      cases h
      exact ⟨by rw [List.append_assoc, splitTemplate?_append hseconds,
        splitTemplate?_append hfront], by simp [hne]⟩
    · cases h
      exact ⟨splitTemplate?_append hfront, hne⟩

theorem splitUnit_append (cs : List Char) : (splitUnit cs).1 ++ (splitUnit cs).2 = cs := by
  unfold splitUnit
  split
  · rfl
  · split <;> rfl

theorem quantity_append (sign cs : List Char) :
    (quantity sign cs).text ++ (quantity sign cs).rest = sign ++ cs := by
  simp [quantity, splitUnit_append]

theorem splitOffset_append {cs offset rest : List Char}
    (h : splitOffset cs = .ok (offset, rest)) : offset ++ rest = cs := by
  have hspan (cs : List Char) : cs.takeWhile Char.isDigit ++ cs.dropWhile Char.isDigit = cs :=
    List.takeWhile_append_dropWhile
  have hcs := hspan cs
  simp only [splitOffset] at h
  generalize cs.takeWhile Char.isDigit = digits at h hcs
  generalize cs.dropWhile Char.isDigit = after at h hcs
  subst hcs
  split at h
  · split at h
    · split at h
      · cases h
        simp [hspan]
      · cases h
    · cases h
      rfl
  · split at h
    · cases h
      rfl
    · cases h

theorem splitZone_append {cs zone rest : List Char}
    (h : splitZone cs = .ok (zone, rest)) : zone ++ rest = cs := by
  unfold splitZone at h
  split at h
  · cases h; rfl
  · simp only at h
    split at h
    · cases h; simp
    · cases h; rfl
  · split at h
    · split at h
      · rename_i offset after hoffset
        cases h
        simp [splitOffset_append hoffset]
      · cases h
    · cases h; rfl
  · cases h; rfl

theorem isoDateTime_append {dateTime cs : List Char} {l : Lexeme}
    (h : isoDateTime dateTime cs = .ok l) :
    l.text ++ l.rest = dateTime ++ cs ∧ (dateTime ≠ [] → l.text ≠ []) := by
  unfold isoDateTime at h
  split at h
  · rename_i zone rest hzone
    cases h
    exact ⟨by simp [splitZone_append hzone], by simp +contextual⟩
  · cases h

theorem isoDate_append {date cs : List Char} {l : Lexeme} (hne : date ≠ [])
    (h : isoDate date cs = .ok l) : l.text ++ l.rest = date ++ cs ∧ l.text ≠ [] := by
  unfold isoDate at h
  split at h
  · split at h
    · rename_i clock rest hclock
      have := isoDateTime_append h
      exact ⟨by simp [this.1, (splitClock?_append hclock).1], this.2 (by simp)⟩
    · cases h
  · split at h
    · rename_i clock rest hclock
      have := isoDateTime_append h
      exact ⟨by simp [this.1, (splitClock?_append hclock).1], this.2 (by simp)⟩
    · cases h; exact ⟨rfl, hne⟩
  · cases h; exact ⟨rfl, hne⟩

theorem numeral_append {c : Char} {cs : List Char} {l : Lexeme} (hc : c.isDigit = true)
    (h : numeral (c :: cs) = .ok l) : l.text ++ l.rest = c :: cs ∧ l.text ≠ [] := by
  unfold numeral at h
  split at h
  · rename_i date rest hdate
    have hne : date ≠ [] := by
      intro hnil
      have := splitTemplate?_length hdate
      simp [hnil, isoDateTemplate] at this
    have := isoDate_append hne h
    exact ⟨by rw [this.1, splitTemplate?_append hdate], this.2⟩
  · split at h
    · rename_i clock rest hclock
      cases h
      exact splitClock?_append hclock
    · cases h
      exact ⟨by simpa using quantity_append [] (c :: cs), by simp [quantity, hc]⟩

/-- A lexeme and what follows it make up the text, and the lexeme is not empty. -/
theorem read_append {c : Char} {rest : List Char} {l : Lexeme} (h : read c rest = .ok l) :
    l.text ++ l.rest = c :: rest ∧ l.text ≠ [] := by
  unfold read at h
  split at h
  · cases h; exact ⟨rfl, by simp [single]⟩
  split at h
  · cases h; exact ⟨rfl, by simp [single]⟩
  split at h
  · cases h; exact ⟨rfl, by simp [single]⟩
  split at h
  · cases h; exact ⟨rfl, by simp [single]⟩
  split at h
  · cases h
    unfold signed
    split
    · exact ⟨quantity_append [c] rest, by simp [quantity]⟩
    · exact ⟨rfl, by simp [single]⟩
  split at h
  · rename_i hc
    cases h
    exact ⟨by simp [varName, hc], by simp [varName]⟩
  split at h
  · rename_i hc
    split at h
    · cases h; exact ⟨by simp [hc], by simp⟩
    · cases h
  split at h
  · rename_i hc
    exact numeral_append hc h
  split at h
  · rename_i hc
    cases h
    exact ⟨by simp [word], by simp [word, Char.isAlphanum, hc]⟩
  · cases h

/-- What follows the first lexeme of a text is shorter than the text. -/
theorem length_rest_lt {cs : List Char} {c : Char} {rest : List Char} {l : Lexeme}
    (hrest : cs.dropWhile isAsciiBlank = c :: rest) (hread : read c rest = .ok l) :
    l.rest.length < cs.length := by
  have happend := read_append hread
  have htext := List.length_pos_iff.mpr happend.2
  have hlength := congrArg List.length happend.1
  have hdrop := congrArg List.length hrest
  have hle := (List.dropWhile_sublist isAsciiBlank (l := cs)).length_le
  simp only [List.length_append, List.length_cons] at hlength hdrop
  omega

end Lexeme

/-! ## All tokens -/

/-- The tokens of a text that starts at byte `pos` of the source. -/
def tokensFrom (pos : Nat) (cs : List Char) : Except LexError (List Token) :=
  let start := pos + byteLength (cs.takeWhile isAsciiBlank)
  match hrest : cs.dropWhile isAsciiBlank with
  | [] => .ok [{ kind := .eof, text := "", pos := start }]
  | c :: rest =>
    match hread : Lexeme.read c rest with
    | .error flaw => .error { flaw := flaw, pos := start }
    | .ok l =>
      have := Lexeme.length_rest_lt hrest hread
      match tokensFrom (start + byteLength l.text) l.rest with
      | .error e => .error e
      | .ok tokens => .ok (l.token start :: tokens)
termination_by cs.length

/-- The tokens of a text; the last one, and only that, is its end. -/
def tokenize (source : String) : Except LexError (List Token) :=
  tokensFrom 0 source.toList

end Almanac
