import Almanac.Zone.Abbreviation
import Mathlib

/-!
# The two tables of abbreviations

Which words are read as an abbreviation of a zone, and what an abbreviation means, is
kept in two tables, and each is searched in its own way.  They are about the same words.

Main results:

- Theorem `Zone.abbreviationOffset?_eq_some_iff`: each abbreviation has one offset.
- Theorem `Zone.isAbbreviation_iff`: the words that are read are those with an offset.
- Theorems `Zone.name_bounds`, `Zone.offset_bounds`: lengths and offsets of abbreviations.
-/

namespace Almanac.Zone

variable {name : List Char} {offset : Int}

/-! ## The offsets -/

/-- No abbreviation is listed twice with different offsets. -/
theorem lookup_abbreviations :
    ∀ entry ∈ abbreviations, abbreviations.lookup entry.1 = some entry.2 := by
  decide

/-- Each abbreviation has one offset. -/
theorem abbreviationOffset?_eq_some_iff :
    abbreviationOffset? name = some offset ↔
      (String.ofList (name.map Char.toUpper), offset) ∈ abbreviations := by
  constructor
  · intro h
    obtain ⟨before, after, htable, -⟩ := List.lookup_eq_some_iff.1 h
    rw [htable]
    simp
  · exact lookup_abbreviations _

/-! ## The words -/

/-- Two words are the same in small letters exactly if they are in capitals. -/
theorem map_toLower_eq_iff {a b : List Char} :
    a.map Char.toLower = b.map Char.toLower ↔ a.map Char.toUpper = b.map Char.toUpper := by
  have hupper : Char.toUpper ∘ Char.toLower = Char.toUpper :=
    funext Char.toUpper_toLower_eq_toUpper
  have hlower : Char.toLower ∘ Char.toUpper = Char.toLower :=
    funext Char.toLower_toUpper_eq_toLower
  constructor
  · intro h
    simpa [hupper] using congrArg (List.map Char.toUpper) h
  · intro h
    simpa [hlower] using congrArg (List.map Char.toLower) h

theorem abbreviationNames_eq : abbreviationNames = abbreviations.map Prod.fst :=
  rfl

/-- Every abbreviation is written in capitals in the table. -/
theorem map_toUpper_abbreviationNames :
    ∀ known ∈ abbreviationNames, known.toList.map Char.toUpper = known.toList := by
  decide

/-- The words that are read as an abbreviation are those that have an offset. -/
theorem isAbbreviation_iff :
    isAbbreviation name = true ↔ ∃ offset, abbreviationOffset? name = some offset := by
  have hmem : isAbbreviation name = true ↔
      String.ofList (name.map Char.toUpper) ∈ abbreviationNames := by
    simp only [isAbbreviation, List.any_eq_true, beq_iff_eq, map_toLower_eq_iff]
    constructor
    · rintro ⟨known, hknown, heq⟩
      rw [map_toUpper_abbreviationNames known hknown] at heq
      rw [← heq, String.ofList_toList]
      exact hknown
    · intro hname
      have hupper := map_toUpper_abbreviationNames _ hname
      rw [String.toList_ofList] at hupper
      exact ⟨_, hname, by rw [String.toList_ofList, hupper]⟩
  simp only [hmem, abbreviationNames_eq, abbreviationOffset?_eq_some_iff, List.mem_map,
    Prod.exists, exists_and_right, exists_eq_right]

/-! ## Bounds -/

/-- The limits on the length of abbreviations, and on their offsets. -/
theorem abbreviations_bounds : ∀ entry ∈ abbreviations,
    entry.1.toList.all Char.isAlpha = true ∧
      minAbbreviationLength ≤ entry.1.toList.length ∧
      entry.1.toList.length ≤ maxAbbreviationLength ∧
      -86400 < entry.2 ∧ entry.2 < 86400 := by
  decide

/-- An abbreviation consists of letters, and its length is within the limits. -/
theorem name_bounds (known : (String.ofList (name.map Char.toUpper), offset) ∈ abbreviations) :
    (∀ c ∈ name, c.isAlpha = true) ∧ minAbbreviationLength ≤ name.length ∧
      name.length ≤ maxAbbreviationLength := by
  obtain ⟨hletters, hmin, hmax, -⟩ := abbreviations_bounds _ known
  rw [String.toList_ofList, List.length_map] at hmin hmax
  refine ⟨?_, hmin, hmax⟩
  intro c hc
  have hupper := List.all_eq_true.1 hletters c.toUpper (by simpa using ⟨c, hc, rfl⟩)
  rwa [Char.isAlpha_toUpper_eq_isAlpha] at hupper

/-- An abbreviation stands for less than a day. -/
theorem offset_bounds (known : (String.ofList (name.map Char.toUpper), offset) ∈ abbreviations) :
    -86400 < offset ∧ offset < 86400 :=
  (abbreviations_bounds _ known).2.2.2

end Almanac.Zone
