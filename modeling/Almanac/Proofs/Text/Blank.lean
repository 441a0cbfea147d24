import Almanac.Text.Blank
import Mathlib.Data.List.TakeWhile
import Mathlib.Tactic.ByContra

/-!
# Texts without the blanks at their ends

To trim a text takes nothing from it but blanks, and takes all of them only if it has nothing else.

Main results:

- Theorem `exists_trim`: what is trimmed off a text are blanks at its two ends.
- Theorem `trim_eq_nil_iff`: nothing is left of a text exactly if it is blank.
- Theorem `exists_not_isBlank_of_trim_ne_nil`: what is left of a text is not blank.
-/

namespace Almanac.Text

variable {cs : List Char}

/-- What is trimmed off a text are blanks at its two ends. -/
theorem exists_trim (cs : List Char) :
    ∃ before after, cs = before ++ (trim cs ++ after) ∧
      (∀ c ∈ before, isBlank c = true) ∧ ∀ c ∈ after, isBlank c = true := by
  refine ⟨cs.takeWhile isBlank, ((trimStart cs).reverse.takeWhile isBlank).reverse, ?_,
    fun c hc => List.mem_takeWhile_imp hc,
    fun c hc => List.mem_takeWhile_imp (List.mem_reverse.1 hc)⟩
  rw [trim, trimEnd, ← List.reverse_append, List.takeWhile_append_dropWhile,
    List.reverse_reverse, trimStart, List.takeWhile_append_dropWhile]

/-- Without blanks there is nothing to trim. -/
theorem trim_of_not_isBlank (h : ∀ c ∈ cs, isBlank c = false) : trim cs = cs := by
  have hdrop {ds : List Char} (hds : ∀ c ∈ ds, isBlank c = false) : ds.dropWhile isBlank = ds := by
    rw [List.dropWhile_eq_self_iff]
    intro hpos
    simp [hds _ (List.getElem_mem hpos)]
  rw [trim, trimStart, trimEnd, hdrop h, hdrop (by simpa using h), List.reverse_reverse]

/-- Nothing is left of a text that is trimmed exactly if it is blank. -/
theorem trim_eq_nil_iff : trim cs = [] ↔ ∀ c ∈ cs, isBlank c = true := by
  constructor
  · intro htrim
    obtain ⟨before, after, hcs, hbefore, hafter⟩ := exists_trim cs
    rw [htrim, List.nil_append] at hcs
    rw [hcs]
    exact List.forall_mem_append.2 ⟨hbefore, hafter⟩
  · intro h
    rw [trim, trimStart, List.dropWhile_eq_nil_iff.2 h]
    rfl

/-- What is left of a text that is trimmed is not blank. -/
theorem exists_not_isBlank_of_trim_ne_nil (h : trim cs ≠ []) :
    ∃ c ∈ trim cs, isBlank c = false := by
  by_contra hnone
  have htrim : ∀ c ∈ trim cs, isBlank c = true := by
    intro c hc
    by_contra hblank
    exact hnone ⟨c, hc, Bool.eq_false_iff.2 hblank⟩
  obtain ⟨before, after, hcs, hbefore, hafter⟩ := exists_trim cs
  apply h
  rw [trim_eq_nil_iff, hcs]
  exact List.forall_mem_append.2 ⟨hbefore, List.forall_mem_append.2 ⟨htrim, hafter⟩⟩

end Almanac.Text
