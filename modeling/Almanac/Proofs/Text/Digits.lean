import Almanac.Text.Blank
import Almanac.Text.Decimal
import Mathlib

/-!
# Digits written and read

A number below the power of ten is read back from its digits, and a run of digits is
the digits of the number that it denotes.  So a field of so many digits in a text is
the same as a number with so many digits at most.

Main results:

- Theorem `valueOf_fixedDigits`: a number is read back from its digits.
- Theorem `fixedDigits_valueOf`: a run of digits is written back from its value.
- Theorem `exists_fixedDigits_iff`: which texts are a number in so many digits.
- Theorems `takeWhile_append_of_head`, `dropWhile_append_of_head`: where a run of
  characters of one class ends.
- Theorem `splitAtByte_append`: the bytes of a text of ASCII characters.
-/

namespace Almanac.Text

variable {c : Char} {digits : List Char} {width n : Nat}

/-! ## One digit -/

/-- The digits are next to each other among the characters. -/
theorem bounds_of_isDigit (h : c.isDigit = true) : 48 ≤ c.toNat ∧ c.toNat ≤ 57 :=
  Char.isDigit_iff_toNat.1 h

/-- The digit of a number below ten stands for that number. -/
theorem digitValue_digitChar (h : n < 10) : digitValue (Nat.digitChar n) = n :=
  Nat.toNat_digitChar_sub_48_of_lt_ten h

/-- A digit stands for less than ten. -/
theorem digitValue_lt (h : c.isDigit = true) : digitValue c < 10 := by
  obtain ⟨hlower, hupper⟩ := bounds_of_isDigit h
  have hzero : '0'.toNat = 48 := rfl
  rw [digitValue]
  omega

/-- A digit is that of the number that it stands for. -/
theorem digitChar_digitValue (h : c.isDigit = true) : Nat.digitChar (digitValue c) = c := by
  obtain ⟨hlower, hupper⟩ := bounds_of_isDigit h
  have hvalue := digitValue_lt h
  apply Char.toNat_inj.1
  have hzero : '0'.toNat = 48 := rfl
  rw [Nat.toNat_digitChar_of_lt_ten hvalue, digitValue]
  omega

/-! ## Runs of digits -/

/-- One digit more makes the number ten times as large. -/
theorem valueOf_append_singleton (digits : List Char) (c : Char) :
    valueOf (digits ++ [c]) = 10 * valueOf digits + digitValue c := by
  simp [valueOf]

/-- Numbers of fixed width are written with digits. -/
theorem isDigit_fixedDigits (width n : Nat) : ∀ c ∈ fixedDigits width n, c.isDigit = true := by
  induction width generalizing n with
  | zero => simp [fixedDigits]
  | succ width ih =>
      intro c hc
      rcases List.mem_append.1 hc with hfront | hlast
      · exact ih _ c hfront
      · rw [List.mem_singleton.1 hlast, Nat.isDigit_digitChar]
        exact decide_eq_true (Nat.mod_lt n (by decide))

/-- A number of fixed width begins with a digit. -/
theorem exists_fixedDigits_eq_cons (hwidth : 0 < width) (n : Nat) :
    ∃ c digits, fixedDigits width n = c :: digits ∧ c.isDigit = true := by
  have hdigits := isDigit_fixedDigits width n
  have hlength := length_fixedDigits width n
  cases hcases : fixedDigits width n with
  | nil =>
      rw [hcases, List.length_nil] at hlength
      omega
  | cons c digits =>
      rw [hcases] at hdigits
      exact ⟨c, digits, rfl, hdigits c (List.mem_cons_self ..)⟩

/-- A number is read back from its digits. -/
theorem valueOf_fixedDigits (h : n < 10 ^ width) : valueOf (fixedDigits width n) = n := by
  induction width generalizing n with
  | zero =>
      rw [Nat.lt_one_iff.1 h]
      rfl
  | succ width ih =>
      have hfront : n / 10 < 10 ^ width := by
        rw [Nat.pow_succ] at h
        omega
      rw [fixedDigits, valueOf_append_singleton, ih hfront,
        digitValue_digitChar (Nat.mod_lt n (by decide))]
      omega

/-- So many digits make no larger number. -/
theorem valueOf_lt (h : ∀ c ∈ digits, c.isDigit = true) : valueOf digits < 10 ^ digits.length := by
  induction digits using List.reverseRecOn with
  | nil => decide
  | append_singleton digits c ih =>
      have hfront := ih fun d hd => h d (List.mem_append_left _ hd)
      have hlast := digitValue_lt (h c (by simp))
      rw [valueOf_append_singleton, List.length_append, List.length_singleton, Nat.pow_succ]
      omega

/-- A run of digits is written back from the number that it denotes. -/
theorem fixedDigits_valueOf (h : ∀ c ∈ digits, c.isDigit = true) :
    fixedDigits digits.length (valueOf digits) = digits := by
  induction digits using List.reverseRecOn with
  | nil => rfl
  | append_singleton digits c ih =>
      have hfront := ih fun d hd => h d (List.mem_append_left _ hd)
      have hc := h c (by simp)
      have hlast := digitValue_lt hc
      rw [valueOf_append_singleton, List.length_append, List.length_singleton, fixedDigits]
      rw [show (10 * valueOf digits + digitValue c) / 10 = valueOf digits by omega,
        show (10 * valueOf digits + digitValue c) % 10 = digitValue c by omega,
        hfront, digitChar_digitValue hc]

/-- The texts that are a number in so many digits are the runs of so many digits. -/
theorem exists_fixedDigits_iff :
    (∃ n : Fin (10 ^ width), digits = fixedDigits width n) ↔
      digits.length = width ∧ ∀ c ∈ digits, c.isDigit = true := by
  constructor
  · rintro ⟨n, rfl⟩
    exact ⟨length_fixedDigits width n, isDigit_fixedDigits width n⟩
  · rintro ⟨rfl, hdigits⟩
    exact ⟨⟨valueOf digits, valueOf_lt hdigits⟩, (fixedDigits_valueOf hdigits).symm⟩

/-! ## Where a run ends -/

section Runs

variable {p : Char → Bool} {cs front rest : List Char}

/-- A run of characters of one class ends where the first other one stands. -/
theorem takeWhile_append_of_head (hfront : ∀ c ∈ front, p c = true)
    (hrest : rest.head?.any p = false) : (front ++ rest).takeWhile p = front := by
  rw [List.takeWhile_append_of_pos hfront]
  cases rest with
  | nil => exact List.append_nil front
  | cons c rest =>
      have hc : p c = false := hrest
      simp [hc]

/-- What is dropped from the front ends where the rest begins. -/
theorem dropWhile_append_of_head (hfront : ∀ c ∈ front, p c = true)
    (hrest : rest.head?.any p = false) : (front ++ rest).dropWhile p = rest := by
  rw [List.dropWhile_append_of_pos hfront]
  cases rest with
  | nil => rfl
  | cons c rest =>
      have hc : p c = false := hrest
      simp [hc]

/-- A run of characters of one class does not reach into a text that begins with no such
character. -/
theorem takeWhile_append_rest (hrest : rest.head?.any p = false) :
    (cs ++ rest).takeWhile p = cs.takeWhile p := by
  induction cs with
  | nil =>
      cases rest with
      | nil => rfl
      | cons c rest =>
          have hc : p c = false := hrest
          simp [hc]
  | cons c cs ih =>
      by_cases hc : p c = true
      · simp [hc, ih]
      · simp [hc]

/-- A rest that begins otherwise is not dropped. -/
theorem dropWhile_append_rest (hrest : rest.head?.any p = false) :
    (cs ++ rest).dropWhile p = cs.dropWhile p ++ rest := by
  induction cs with
  | nil =>
      cases rest with
      | nil => rfl
      | cons c rest =>
          have hc : p c = false := hrest
          simp [hc]
  | cons c cs ih =>
      by_cases hc : p c = true
      · simp [hc, ih]
      · simp [hc]

theorem takeWhile_eq_self (hfront : ∀ c ∈ front, p c = true) : front.takeWhile p = front := by
  have hrest : ([] : List Char).head?.any p = false := rfl
  simpa using takeWhile_append_of_head hfront hrest

end Runs

/-! ## Classes of characters -/

/-- A digit is no blank. -/
theorem not_isBlank_of_isDigit (h : c.isDigit = true) : isBlank c = false := by
  obtain ⟨hlower, hupper⟩ := bounds_of_isDigit h
  simp [isBlank]
  omega

/-- A digit does not separate tokens. -/
theorem not_isAsciiBlank_of_isDigit (h : c.isDigit = true) : isAsciiBlank c = false := by
  have hblank := mt (isBlank_of_isAsciiBlank (c := c))
  simpa [not_isBlank_of_isDigit h] using hblank

theorem ne_of_isDigit {d : Char} (h : c.isDigit = true) (hd : d.isDigit = false) : c ≠ d := by
  rintro rfl
  rw [h] at hd
  cases hd

/-- Digits are no letters. -/
theorem isAlpha_of_isDigit (h : c.isDigit = true) : c.isAlpha = false := by
  obtain ⟨-, hupper⟩ := bounds_of_isDigit h
  have hbelow (n : UInt32) (hn : 57 < n.toNat) : ¬ n ≤ c.val := by
    rw [UInt32.le_iff_toNat_le]
    exact Nat.not_le.2 (Nat.lt_of_le_of_lt hupper hn)
  simp [Char.isAlpha, Char.isUpper, Char.isLower, hbelow 65 (by decide), hbelow 97 (by decide)]

/-- Digits take one byte each. -/
theorem utf8Size_of_isDigit (h : c.isDigit = true) : c.utf8Size = 1 := by
  obtain ⟨-, hupper⟩ := bounds_of_isDigit h
  rw [Char.utf8Size_eq_one_iff, UInt32.le_iff_toNat_le]
  exact Nat.le_trans hupper (by decide)

/-- The first bytes of a text that starts with characters of one byte each. -/
theorem splitAtByte_append {front : List Char} (rest : List Char)
    (h : ∀ c ∈ front, c.utf8Size = 1) :
    splitAtByte front.length (front ++ rest) = some (front, rest) := by
  induction front with
  | nil => cases rest <;> rfl
  | cons c front ih =>
      have hc := h c (List.mem_cons_self ..)
      have hfront := ih fun d hd => h d (List.mem_cons_of_mem c hd)
      simp [splitAtByte, hc, hfront]

end Almanac.Text
