import Almanac.CommandLine.Expression
import Almanac.Proofs.Text.Blank

/-!
# The first line that says something

Without an expression among the arguments, the input is split at its line feeds, and its lines are
looked at one after the other.  Lines of blanks are passed over.  The first other line settles what
the expression is, or that there is none because the line is not UTF-8, and no line after it
matters.

Main definitions:

- `encode`: the bytes of a text in UTF-8.
- `IsBlankLine`: the lines that are passed over.
- `FirstSaying`: the first line of all that is not passed over.

Main results:

- Theorem `lines_eq_splitOn`: the lines are what is between the line feeds.
- Theorem `decode?_eq_some_iff`: a line is read as a text exactly if it is the text in UTF-8.
- Theorem `firstExpression_append`: lines of blanks are passed over.
- Theorems `FirstSaying.firstExpression_of_encode`, `FirstSaying.firstExpression_of_not_encode`: the
  first other line settles the expression.
- Theorem `FirstSaying.firstExpression_congr`: no line after it matters.
- Theorem `resolveExpression_first_line`: which expression is chosen, and what that depends on.
-/

namespace Almanac.CommandLine

open Text

variable {line : List UInt8} {front lines : List (List UInt8)} {cs : List Char} {source : String}

/-! ## Lines of bytes -/

/-- The lines are what is between the line feeds. -/
theorem lines_eq_splitOn (input : List UInt8) :
    CommandLine.lines input = input.splitOn lineFeed := by
  induction input with
  | nil => rfl
  | cons b bs ih =>
      rw [CommandLine.lines, List.splitOn_cons_eq_if_modifyHead, ih]
      by_cases hb : b = lineFeed
      · rw [if_pos hb, if_pos (beq_iff_eq.2 hb)]
      · rw [if_neg hb, if_neg (by simpa using hb)]
        cases hparts : bs.splitOn lineFeed with
        | nil => exact absurd hparts (List.splitOn_ne_nil lineFeed bs)
        | cons first rest => rfl

/-- The bytes of a text in UTF-8. -/
def encode (cs : List Char) : List UInt8 :=
  cs.flatMap String.utf8EncodeChar

/-- Bytes are a text exactly if they are its encoding. -/
theorem fromUTF8?_eq_some_iff {bytes : ByteArray} :
    String.fromUTF8? bytes = some source ↔ source.toByteArray = bytes := by
  rw [String.fromUTF8?]
  constructor
  · intro h
    split at h
    · cases h
      rfl
    · cases h
  · rintro rfl
    rw [dif_pos source.isValidUTF8]
    rfl

/-- The encoding of a text as an array of bytes and as a list of them. -/
theorem toByteArray_eq_iff :
    source.toByteArray = ⟨line.toArray⟩ ↔ encode source.toList = line := by
  have hline : (⟨line.toArray⟩ : ByteArray) = line.toByteArray :=
    ByteArray.ext List.data_toByteArray.symm
  have hsource : source.toByteArray = (encode source.toList).toByteArray := by
    conv_lhs => rw [← String.ofList_toList (s := source)]
    exact String.toByteArray_ofList
  rw [hline, hsource, List.toByteArray_inj]

/-- A line is read as a text exactly if it is the text in UTF-8. -/
theorem decode?_eq_some_iff : decode? line = some cs ↔ encode cs = line := by
  rw [decode?, Option.map_eq_some_iff]
  simp only [fromUTF8?_eq_some_iff, toByteArray_eq_iff]
  constructor
  · rintro ⟨source, hline, rfl⟩
    exact hline
  · intro hline
    exact ⟨String.ofList cs, by rwa [String.toList_ofList], String.toList_ofList⟩

/-- A line that cannot be decoded is the encoding of nothing. -/
theorem decode?_eq_none_iff : decode? line = none ↔ ∀ cs, encode cs ≠ line := by
  simp only [Option.eq_none_iff_forall_ne_some, ne_eq, decode?_eq_some_iff]

/-- A line that says nothing: blanks in UTF-8. -/
def IsBlankLine (line : List UInt8) : Prop :=
  ∃ cs, encode cs = line ∧ ∀ c ∈ cs, isBlank c = true

/-- A blank line is found by decoding it. -/
theorem isBlankLine_iff : IsBlankLine line ↔ (decode? line).any (·.all isBlank) = true := by
  simp only [IsBlankLine, ← decode?_eq_some_iff, Option.any_eq_true, List.all_eq_true]

instance (line : List UInt8) : Decidable (IsBlankLine line) :=
  decidable_of_iff _ isBlankLine_iff.symm

/-! ## The first line that says something -/

/-- Lines of blanks are passed over. -/
theorem firstExpression_append (hfront : ∀ earlier ∈ front, IsBlankLine earlier)
    (rest : List (List UInt8)) : firstExpression (front ++ rest) = firstExpression rest := by
  induction front with
  | nil => rfl
  | cons line front ih =>
      obtain ⟨⟨cs, hline, hblank⟩, hfront⟩ := List.forall_mem_cons.1 hfront
      rw [List.cons_append, firstExpression, decode?_eq_some_iff.2 hline]
      dsimp only
      rw [if_pos (trim_eq_nil_iff.2 hblank), ih hfront]

/-- Where all lines are blank, there is no expression. -/
theorem firstExpression_of_blank (h : ∀ line ∈ lines, IsBlankLine line) :
    firstExpression lines = .error .noExpression := by
  rw [← List.append_nil lines, firstExpression_append h]
  rfl

/-- An expression that is found is not blank. -/
theorem exists_not_isBlank_of_firstExpression (h : firstExpression lines = .ok source) :
    ∃ c ∈ source.toList, isBlank c = false := by
  induction lines with
  | nil => cases h
  | cons line lines ih =>
      rw [firstExpression] at h
      split at h
      · cases h
      · rename_i cs hline
        split at h
        · exact ih h
        · rename_i htrim
          cases h
          rw [String.toList_ofList]
          exact exists_not_isBlank_of_trim_ne_nil htrim

/-- Of some lines, `line` is the first that is not blank, and `front` are the lines before it. -/
structure FirstSaying (lines front : List (List UInt8)) (line : List UInt8) : Prop where
  isPrefix : front ++ [line] <+: lines
  blank : ∀ earlier ∈ front, IsBlankLine earlier
  not_blank : ¬ IsBlankLine line

/-- Lines that are not all blank have a first one that is not. -/
theorem exists_firstSaying (h : ¬ ∀ line ∈ lines, IsBlankLine line) :
    ∃ front line, FirstSaying lines front line := by
  induction lines with
  | nil => exact absurd (by simp) h
  | cons line lines ih =>
      by_cases hline : IsBlankLine line
      · have hrest : ¬ ∀ later ∈ lines, IsBlankLine later := fun hrest =>
          h (List.forall_mem_cons.2 ⟨hline, hrest⟩)
        obtain ⟨front, first, hfirst⟩ := ih hrest
        exact ⟨line :: front, first,
          { isPrefix := (List.prefix_cons_inj line).2 hfirst.isPrefix
            blank := List.forall_mem_cons.2 ⟨hline, hfirst.blank⟩
            not_blank := hfirst.not_blank }⟩
      · exact ⟨[], line,
          { isPrefix := ⟨lines, rfl⟩
            blank := by simp
            not_blank := hline }⟩

namespace FirstSaying

variable (h : FirstSaying lines front line)
include h

/-- A first line in UTF-8 is the expression, without the blanks at its ends. -/
theorem firstExpression_of_encode (hline : encode cs = line) :
    firstExpression lines = .ok (String.ofList (trim cs)) := by
  have htrim : trim cs ≠ [] := fun htrim =>
    h.not_blank ⟨cs, hline, trim_eq_nil_iff.1 htrim⟩
  obtain ⟨rest, rfl⟩ := h.isPrefix
  rw [List.append_assoc, firstExpression_append h.blank, List.singleton_append, firstExpression,
    decode?_eq_some_iff.2 hline]
  dsimp only
  rw [if_neg htrim]

/-- A first line that is not UTF-8 cannot be read. -/
theorem firstExpression_of_not_encode (hline : ∀ cs, encode cs ≠ line) :
    firstExpression lines = .error .unreadable := by
  obtain ⟨rest, rfl⟩ := h.isPrefix
  rw [List.append_assoc, firstExpression_append h.blank, List.singleton_append, firstExpression,
    decode?_eq_none_iff.2 hline]

/-- No line after the first one that is not blank is looked at. -/
theorem firstExpression_congr {others : List (List UInt8)} (hothers : front ++ [line] <+: others) :
    firstExpression others = firstExpression lines := by
  have h' : FirstSaying others front line :=
    { isPrefix := hothers, blank := h.blank, not_blank := h.not_blank }
  by_cases hline : ∃ cs, encode cs = line
  · obtain ⟨cs, hline⟩ := hline
    rw [h.firstExpression_of_encode hline, h'.firstExpression_of_encode hline]
  · have hnone : ∀ cs, encode cs ≠ line := fun cs hcs => hline ⟨cs, hcs⟩
    rw [h.firstExpression_of_not_encode hnone, h'.firstExpression_of_not_encode hnone]

end FirstSaying

/-! ## The expression to evaluate -/

/-- Without an argument the expression is taken from the lines of the input. -/
theorem resolveExpression_of_input {arguments : Arguments} (h : arguments.expression = none)
    (input : List UInt8) :
    arguments.resolveExpression input false = firstExpression (input.splitOn lineFeed) := by
  rw [Arguments.resolveExpression, h, ← lines_eq_splitOn]
  rfl

/-- Without an expression among the arguments, and unless a terminal is there to ask, the lines of
the input decide.  The first one that is not blank is the expression, without the blanks at its
ends, or cannot be read; if there is none, there is no expression.  What is found is never blank,
and what follows the line does not matter.  In all other cases no byte of the input matters. -/
theorem resolveExpression_first_line (arguments : Arguments) :
    (arguments.expression = none → ∀ input : List UInt8,
      (∀ front line, FirstSaying (input.splitOn lineFeed) front line →
        (∀ cs, encode cs = line →
          arguments.resolveExpression input false = .ok (String.ofList (trim cs))) ∧
        ((∀ cs, encode cs ≠ line) →
          arguments.resolveExpression input false = .error .unreadable) ∧
        ∀ other : List UInt8, front ++ [line] <+: other.splitOn lineFeed →
          arguments.resolveExpression other false = arguments.resolveExpression input false) ∧
      ((¬ ∃ front line, FirstSaying (input.splitOn lineFeed) front line) →
        arguments.resolveExpression input false = .error .noExpression) ∧
      ∀ source, arguments.resolveExpression input false = .ok source →
        ∃ c ∈ source.toList, isBlank c = false) ∧
    (InputError.unreadable.message = "failed to read expression from stdin" ∧
      InputError.noExpression.message = "no expression provided via stdin") ∧
    ∀ terminal, arguments.expression.isSome = true ∨ terminal = true →
      ∀ input other : List UInt8,
        arguments.resolveExpression other terminal = arguments.resolveExpression input terminal := by
  refine ⟨fun hnone input => ?_, ⟨rfl, rfl⟩, fun terminal hgiven input other => ?_⟩
  · simp only [resolveExpression_of_input hnone]
    refine ⟨fun front line h => ?_, fun hno => ?_, fun source hsource => ?_⟩
    · exact ⟨fun cs hline => h.firstExpression_of_encode hline, h.firstExpression_of_not_encode,
        fun other hother => h.firstExpression_congr hother⟩
    · apply firstExpression_of_blank
      by_contra hblank
      exact hno (exists_firstSaying hblank)
    · exact exists_not_isBlank_of_firstExpression hsource
  · unfold Arguments.resolveExpression
    rcases hgiven with hsome | rfl
    · obtain ⟨expression, hexpression⟩ := Option.isSome_iff_exists.1 hsome
      rw [hexpression]
    · rfl

/-- An input of blank lines, one of them a no-break space, before the expression, and of a byte
after it that is no UTF-8. -/
def pipedInput : List UInt8 :=
  [10, 0x20, 0x0d, 10, 0xc2, 0xa0, 10, 0x20, 0x6e, 0x6f, 0x77, 0x0d, 10, 0xff]

/-- Three blank lines are passed over, one of them with a blank outside of ASCII.  The fourth is
the expression, whatever stands after it. -/
theorem resolveExpression_first_line_piped :
    ∃ arguments, Arguments.ofList {} ["--tz", "UTC"] = .ok arguments ∧
      arguments.expression = none ∧
      FirstSaying (pipedInput.splitOn lineFeed) [[], [0x20, 0x0d], [0xc2, 0xa0]]
        [0x20, 0x6e, 0x6f, 0x77, 0x0d] ∧
      encode [' ', 'n', 'o', 'w', '\r'] = [0x20, 0x6e, 0x6f, 0x77, 0x0d] ∧
      arguments.resolveExpression pipedInput false = .ok "now" ∧
      ∀ other : List UInt8,
        [[], [0x20, 0x0d], [0xc2, 0xa0], [0x20, 0x6e, 0x6f, 0x77, 0x0d]] <+:
          other.splitOn lineFeed →
        arguments.resolveExpression other false = .ok "now" := by
  have hfirst : FirstSaying (pipedInput.splitOn lineFeed) [[], [0x20, 0x0d], [0xc2, 0xa0]]
      [0x20, 0x6e, 0x6f, 0x77, 0x0d] :=
    { isPrefix := by decide
      blank := by decide +kernel
      not_blank := by decide +kernel }
  have hencode : encode [' ', 'n', 'o', 'w', '\r'] = [0x20, 0x6e, 0x6f, 0x77, 0x0d] := by decide
  obtain ⟨arguments, hread, hnone⟩ : ∃ arguments,
      Arguments.ofList {} ["--tz", "UTC"] = .ok arguments ∧ arguments.expression = none :=
    ⟨_, rfl, rfl⟩
  obtain ⟨htext, -, hcongr⟩ :=
    ((resolveExpression_first_line arguments).1 hnone pipedInput).1 _ _ hfirst
  have hnow : arguments.resolveExpression pipedInput false = .ok "now" := htext _ hencode
  exact ⟨arguments, hread, hnone, hfirst, hencode, hnow,
    fun other hother => (hcongr other hother).trans hnow⟩

end Almanac.CommandLine
