import Almanac.Proofs.IsoDate.Value
import Almanac.Proofs.Operation.Shift
import Almanac.Zone.Table

/-!
# Written quantities

A quantity is written as a sign or none, digits, and one character for the unit.  With a sign,
or with a letter for the unit, it is counted from now; any other is no date at all.  The unit
is looked up after the number is read, so that a number too large hides an unknown unit.

Main definitions:

- `Quantity`: a written quantity, with its text and the amount that it says.
- `EndsAtMark`: that a text ends at its first character that is no digit.

Main results:

- Theorems `Literal.iso?_of_endsAtMark`, `Literal.clockTime?_of_endsAtMark`: no such text is
  a date or a time of day.
- Theorem `Quantity.valueOn_source`: the value of a quantity.
- Theorem `shift_exact`: in UTC shifts are exact, and so are written quantities.
-/

namespace Almanac

open Text

/-! ## Texts with one mark, at their end -/

/-- Nothing follows a character that is no digit. -/
def EndsAtMark (cs : List Char) : Prop :=
  ∀ c rest, c :: rest <:+ cs → c.isDigit = false → rest = []

namespace EndsAtMark

variable {cs front rest digits : List Char}

/-- What is left of a text ends as the text does. -/
theorem of_suffix (h : EndsAtMark cs) (hrest : rest <:+ cs) : EndsAtMark rest :=
  fun c after hafter hc => h c after (hafter.trans hrest) hc

/-- A text whose continuation ends at a mark does so too. -/
theorem of_append (h : EndsAtMark (front ++ rest)) : EndsAtMark front := by
  rintro c after ⟨before, rfl⟩ hc
  have hnil := h c (after ++ rest) ⟨before, by simp⟩ hc
  exact (List.append_eq_nil_iff.1 hnil).1

/-- Digits and one more character. -/
theorem of_digits (hdigits : ∀ c ∈ digits, c.isDigit = true) (unit : Char) :
    EndsAtMark (digits ++ [unit]) := by
  rintro c after ⟨before, hbefore⟩ hc
  induction after using List.reverseRecOn with
  | nil => rfl
  | append_singleton after last ih =>
      have happend : (before ++ c :: after) ++ [last] = digits ++ [unit] := by
        rw [← hbefore]
        simp
      have hfront := (List.append_inj' happend rfl).1
      have hmem : c ∈ digits := by
        rw [← hfront]
        simp
      rw [hdigits c hmem] at hc
      cases hc

end EndsAtMark

namespace Literal

variable {cs rest : List Char} {width n : Nat} {y : Int} {c : Char}

/-- A field of digits is read from the front. -/
theorem suffix_of_digitField (h : digitField width cs = some (n, rest)) : rest <:+ cs := by
  rw [digitField] at h
  split at h <;> cases h
  exact List.drop_suffix _ _

/-- A field with blanks before it is read from the front. -/
theorem suffix_of_numericField (h : numericField width cs = some (n, rest)) : rest <:+ cs :=
  (suffix_of_digitField h).trans (List.dropWhile_suffix _)

/-- A year is read from the front. -/
theorem suffix_of_yearField (h : yearField cs = some (y, rest)) : rest <:+ cs := by
  have htrim : trimStart cs <:+ cs := List.dropWhile_suffix _
  unfold yearField at h
  generalize trimStart cs = trimmed at h htrim
  split at h
  all_goals
    simp only [Option.map_eq_some_iff, Prod.exists, Prod.mk.injEq] at h
    obtain ⟨n, after, hdigits, -, rfl⟩ := h
  · exact ((suffix_of_digitField hdigits).trans (List.suffix_cons _ _)).trans htrim
  · exact ((suffix_of_digitField hdigits).trans (List.suffix_cons _ _)).trans htrim
  · exact (suffix_of_digitField hdigits).trans htrim

/-- A character is passed over if the text begins with it. -/
theorem skipChar_eq_some_iff : skipChar c cs = some rest ↔ cs = c :: rest := by
  cases cs with
  | nil => simp [skipChar]
  | cons d cs => simp [skipChar]

/-- After the mark, there is nothing left to read. -/
theorem nil_of_skipChar (h : EndsAtMark cs) (hc : c.isDigit = false)
    (hskip : skipChar c cs = some rest) : rest = [] :=
  h c rest (skipChar_eq_some_iff.1 hskip ▸ List.suffix_refl _) hc

theorem numericField_nil (width : Nat) : numericField width [] = none := by
  simp [numericField, trimStart, digitField]

/-- A text that ends at its mark is no time of day. -/
theorem clockTime?_of_endsAtMark (h : EndsAtMark cs) : clockTime? cs = none := by
  rw [clockTime?]
  cases hhour : numericField 2 cs with
  | none => rfl
  | some field =>
      obtain ⟨hour, rest⟩ := field
      have hrest := h.of_suffix (suffix_of_numericField hhour)
      cases hskip : skipChar ':' rest with
      | none => simp [hskip]
      | some after => simp [hskip, nil_of_skipChar hrest rfl hskip, numericField_nil]

/-- A text that ends at its mark is no day. -/
theorem isoDay?_of_endsAtMark (h : EndsAtMark cs) : isoDay? cs = none := by
  rw [isoDay?]
  cases hyear : yearField cs with
  | none => rfl
  | some field =>
      obtain ⟨year, rest⟩ := field
      have hrest := h.of_suffix (suffix_of_yearField hyear)
      cases hskip : skipChar '-' rest with
      | none => simp [hskip]
      | some after => simp [hskip, nil_of_skipChar hrest rfl hskip, numericField_nil]

/-- A text that is split at a byte is its two parts. -/
theorem append_of_splitAtByte {front : List Char} (h : splitAtByte n cs = some (front, rest)) :
    front ++ rest = cs := by
  induction cs generalizing n front with
  | nil =>
      rw [splitAtByte] at h
      split at h <;> cases h
      rfl
  | cons c cs ih =>
      rw [splitAtByte] at h
      split at h
      · cases h
        rfl
      · split at h
        · obtain ⟨⟨front', rest'⟩, hsplit, hcons⟩ := Option.map_eq_some_iff.1 h
          cases hcons
          rw [List.cons_append, ih hsplit]
        · cases h

/-- A text that ends at its mark is no ISO date. -/
theorem iso?_of_endsAtMark (h : EndsAtMark cs) : iso? cs = none := by
  rw [iso?]
  cases hsplit : splitAtByte 10 cs with
  | none => rfl
  | some split =>
      obtain ⟨front, rest⟩ := split
      rw [← append_of_splitAtByte hsplit] at h
      simp [isoDay?_of_endsAtMark h.of_append]

end Literal

/-! ## Quantities -/

/-- A quantity as it is written. -/
structure Quantity where
  /-- Whether the amount is negative, if there is a sign. -/
  sign : Option Bool
  digits : List Char
  unit : Char
  digits_ne_nil : digits ≠ [] := by decide
  isDigit_of_mem : ∀ c ∈ digits, c.isDigit = true := by exact List.all_eq_true.1 rfl
  not_isDigit : unit.isDigit = false := by decide

namespace Quantity

variable (q : Quantity)

/-- The sign, if there is one. -/
def signText : List Char :=
  q.sign.elim [] fun negative => [IsoZone.sign negative]

/-- The text of a quantity. -/
def text : List Char :=
  q.signText ++ (q.digits ++ [q.unit])

/-- The text of a quantity, as a string. -/
def source : String :=
  String.ofList q.text

/-- The number that is written. -/
def size : Nat :=
  valueOf q.digits

/-- The number of units, negative after a minus sign. -/
def amount : Int :=
  if q.sign = some true then -q.size else q.size

/-- Whether the quantity is counted from now: with a sign any is, and else one whose unit is a
letter. -/
def Counts : Prop :=
  q.sign.isSome ∨ q.unit.isAlpha

instance : Decidable q.Counts :=
  inferInstanceAs (Decidable (_ ∨ _))

/-- The text that is shown if the result is out of range: the amount and the unit, or the text
of the quantity itself if 64 bits do not hold the number. -/
def asked : List Char :=
  if q.size ≤ maxCount then signed q.amount ++ [q.unit] else q.text

theorem toList_source : q.source.toList = q.text := by
  rw [source, String.toList_ofList]

/-- Whatever its sign is, a quantity counts its number of units. -/
theorem natAbs_amount : q.amount.natAbs = q.size := by
  unfold amount
  split <;> omega

/-- The digits begin with a digit. -/
theorem exists_digits_eq_cons : ∃ c rest, q.digits = c :: rest ∧ c.isDigit = true := by
  obtain ⟨c, rest, hcons⟩ := List.exists_cons_of_ne_nil q.digits_ne_nil
  exact ⟨c, rest, hcons, q.isDigit_of_mem c (hcons ▸ List.mem_cons_self ..)⟩

/-! ## Reading a quantity -/

/-- The sign of a quantity is read first. -/
theorem splitSign_text : splitSign q.text = (if q.sign = some true then -1 else 1,
    q.digits ++ [q.unit]) := by
  obtain ⟨c, rest, hcons, hc⟩ := q.exists_digits_eq_cons
  rw [text, signText]
  rcases q.sign with _ | _ | _
  · have hplus : c ≠ '+' := ne_of_isDigit hc rfl
    have hminus : c ≠ '-' := ne_of_isDigit hc rfl
    simp [hcons, splitSign, hplus, hminus]
  · rfl
  · rfl

/-- The text of a quantity does not begin with a letter. -/
theorem head_text : q.text.head?.any Char.isAlpha = false := by
  obtain ⟨c, rest, hcons, hc⟩ := q.exists_digits_eq_cons
  rw [text, signText]
  rcases q.sign with _ | _ | _
  · rw [hcons]
    exact isAlpha_of_isDigit hc
  · rfl
  · rfl

theorem head_unit : [q.unit].head?.any Char.isDigit = false :=
  q.not_isDigit

/-- A text is taken for a quantity if its unit is a letter. -/
theorem isQuantity_text_iff : isQuantity q.text = true ↔ q.Counts := by
  obtain ⟨c, rest, hcons, hc⟩ := q.exists_digits_eq_cons
  have hunsigned : isUnsignedQuantity (q.digits ++ [q.unit]) = q.unit.isAlpha := by
    rw [isUnsignedQuantity, dropWhile_append_of_head q.isDigit_of_mem q.head_unit, hcons]
    simp [hc]
  rw [text, signText, Counts]
  rcases q.sign with _ | _ | _
  · have hplus : c ≠ '+' := ne_of_isDigit hc rfl
    have hminus : c ≠ '-' := ne_of_isDigit hc rfl
    rw [Option.elim_none, List.nil_append, isQuantity, hunsigned, hcons]
    simp [hplus, hminus]
  · simp [isQuantity, IsoZone.sign]
  · simp [isQuantity, IsoZone.sign]

/-- A quantity moves an instant by its amount, if 64 bits hold the number. -/
theorem shiftBy_text (z : Zone) (i : Instant) :
    shiftBy z i q.text =
      if q.size ≤ maxCount then shift z i q.amount q.unit
      else .error (.outOfRange q.source) := by
  have hsplit := q.splitSign_text
  have htake := takeWhile_append_of_head q.isDigit_of_mem q.head_unit
  have hdrop := dropWhile_append_of_head q.isDigit_of_mem q.head_unit
  have hmin : minCount ≤ (q.size : Int) := Int.le_trans (by decide) (Int.natCast_nonneg _)
  have hamount : (if q.sign = some true then -1 else 1) * (q.size : Int) = q.amount := by
    unfold amount
    split <;> omega
  simp only [shiftBy, hsplit, htake, hdrop, q.digits_ne_nil, if_false, count?]
  rw [← size]
  by_cases hlimit : (q.size : Int) ≤ maxCount
  · rw [if_pos ⟨hmin, hlimit⟩, if_pos hlimit, ← hamount]
    rfl
  · rw [if_neg (fun h => hlimit h.2), if_neg hlimit]
    rfl

/-- What is not counted from now is no date. -/
theorem numeralValue_source (ctx : Context) (today : Date) (h : ¬ q.Counts) :
    numeralValue ctx today q.source = .error (.invalidDateValue q.source) := by
  have hsign : q.sign = none := by
    cases hsign : q.sign with
    | none => rfl
    | some negative => exact absurd (.inl (by rw [hsign]; rfl)) h
  have hmark : EndsAtMark q.text := by
    rw [text, signText, hsign]
    exact EndsAtMark.of_digits q.isDigit_of_mem q.unit
  simp only [numeralValue, toList_source, Literal.iso?_of_endsAtMark hmark,
    Literal.clockTime?_of_endsAtMark hmark]

/-- The value of a quantity, which is the same on every day. -/
theorem valueOn_source (ctx : Context) (today : Date) :
    valueOn ctx today q.source =
      if q.Counts then
        if q.size ≤ maxCount then shift ctx.zone ctx.now q.amount q.unit
        else .error (.outOfRange q.source)
      else .error (.invalidDateValue q.source) := by
  have hhead : q.source.toList.head?.any Char.isAlpha = false := by
    rw [toList_source]
    exact q.head_text
  rw [valueOn_of_head ctx today hhead, toList_source]
  by_cases hcounts : q.Counts
  · rw [if_pos (q.isQuantity_text_iff.2 hcounts), if_pos hcounts, shiftBy_text]
  · rw [if_neg (mt q.isQuantity_text_iff.1 hcounts), if_neg hcounts,
      numeralValue_source q ctx today hcounts]

end Quantity

/-! ## Exact quantities -/

/-- The letters of units are letters of ASCII. -/
theorem Period.isAlpha_letter (p : Period) : p.letter.isAlpha = true := by
  cases p <;> rfl

/-- No other letter is one of a unit. -/
theorem Period.ofLetter?_eq_none {unit : Char} (h : ∀ p : Period, unit ≠ p.letter) :
    ofLetter? unit = none := by
  rw [ofLetter?, List.find?_eq_none]
  intro p _
  simpa using (h p).symm

section

variable {z : Zone} {i : Instant} {q : Quantity} {p : Period}
  (hz : ∀ unix, z.offsetAt unix = 0) (hi : i.isLeapSecond = false)
include hz hi

/-- A quantity with a unit that there is has its exact value. -/
theorem Quantity.exact_dateValue {ctx : Context} (hzone : ctx.zone = z) (hnow : ctx.now = i)
    (hunit : q.unit = p.letter) : p.Exact q.amount i q.asked (dateValue ctx q.source) := by
  have hcounts : q.Counts := .inr (by rw [hunit, p.isAlpha_letter])
  have htoday : ctx.HasToday := Zone.inRange_civil_of_offset_zero (hzone ▸ hz) ctx.now
  rw [dateValue_of_hasToday htoday, valueOn_source, if_pos hcounts, hzone, hnow, hunit, asked]
  split <;> rename_i hlimit
  · rw [hunit]
    exact p.exact_shift hz hi q.amount
  · apply p.exact_of_maxCount_lt hz hi
    rw [natAbs_amount]
    exact Int.not_le.1 hlimit

end

/-- In UTC, away from leap seconds, shifts are exact: there is one result so many units later,
which is found if the calendar covers it, and is out of range if not.  No other unit is known.
Written quantities are exact in the same way, whatever the number of their digits.  With any
other unit, a number that 64 bits do not hold is out of range before the unit is looked up, and
what has no sign and no letter for a unit is no date. -/
theorem shift_exact {z : Zone} {i : Instant} (hz : ∀ unix, z.offsetAt unix = 0)
    (hi : i.isLeapSecond = false) :
    (∀ amount p, Period.Exact p amount i (signed amount ++ [p.letter])
      (shift z i amount p.letter)) ∧
    (∀ amount unit, (∀ p : Period, unit ≠ p.letter) →
      shift z i amount unit = .error (.unknownUnit (String.singleton unit))) ∧
    ∀ (q : Quantity) (ctx : Context), ctx.zone = z → ctx.now = i →
      (∀ p, q.unit = p.letter → Period.Exact p q.amount i q.asked (dateValue ctx q.source)) ∧
      ((∀ p : Period, q.unit ≠ p.letter) →
        dateValue ctx q.source = .error
          (if q.Counts then
            if q.size ≤ maxCount then .unknownUnit (String.singleton q.unit)
            else .outOfRange q.source
          else .invalidDateValue q.source)) := by
  refine ⟨fun amount p => p.exact_shift hz hi amount, ?_, ?_⟩
  · intro amount unit hunit
    exact shift_of_ofLetter?_eq_none z i amount (Period.ofLetter?_eq_none hunit)
  · intro q ctx hzone hnow
    refine ⟨fun p hunit => q.exact_dateValue hz hi hzone hnow hunit, ?_⟩
    intro hunit
    have htoday : ctx.HasToday := Zone.inRange_civil_of_offset_zero (hzone ▸ hz) ctx.now
    rw [dateValue_of_hasToday htoday, q.valueOn_source]
    by_cases hcounts : q.Counts
    · rw [if_pos hcounts, if_pos hcounts]
      split
      · exact shift_of_ofLetter?_eq_none _ _ _ (Period.ofLetter?_eq_none hunit)
      · rfl
    · rw [if_neg hcounts, if_neg hcounts]

/-- Noon on the last day of January 2024 in UTC. -/
def lastOfJanuary : Instant :=
  Instant.ofSeconds 1706702400

/-- Noon on the last day of February 2024. -/
def lastOfFebruary : Civil :=
  (Date.ofYMD 2024 2 29).at ⟨43200, 0, by decide, TimeOfDay.midnight.nanos_lt⟩

/-- One month, written with zeros in front. -/
def oneMonth : Quantity where
  sign := some false
  digits := ['0', '0', '1']
  unit := 'M'

/-- A month after the last day of January is the last day of February, by a shift and as a text.
-/
theorem shift_exact_lastOfJanuary :
    (∃ r, shift Zone.utc lastOfJanuary 1 'M' = .ok r ∧ r.utc = lastOfFebruary) ∧
    (∃ r, dateValue { now := lastOfJanuary, zone := Zone.utc } "+001M" = .ok r ∧
      r.utc = lastOfFebruary) ∧
    shift Zone.utc lastOfJanuary 1 'x' = .error (.unknownUnit "x") := by
  have hzero : ∀ unix, Zone.utc.offsetAt unix = 0 := fun _ => rfl
  have hmoves : Period.month.Moves 1 lastOfJanuary.utc lastOfFebruary :=
    ⟨⟨by decide +kernel, by decide +kernel⟩, by decide +kernel⟩
  have hbetween : Civil.first ≤ lastOfFebruary ∧ lastOfFebruary ≤ Civil.last := by
    decide +kernel
  have hsource : oneMonth.source = "+001M" := by decide
  obtain ⟨hshift, hunknown, hvalue⟩ := shift_exact hzero (show lastOfJanuary.isLeapSecond = false
    from rfl)
  refine ⟨?_, ?_, ?_⟩
  · obtain ⟨d, hd, hresult⟩ := hshift 1 .month
    rw [← (hd _).1 hmoves, if_pos hbetween] at hresult
    exact hresult
  · rw [← hsource]
    obtain ⟨d, hd, hresult⟩ :=
      (hvalue oneMonth { now := lastOfJanuary, zone := Zone.utc } rfl rfl).1 .month rfl
    rw [← (hd _).1 hmoves, if_pos hbetween] at hresult
    exact hresult
  · exact hunknown 1 'x' fun p => by cases p <;> decide

/-- Twenty nines of a unit that there is not. -/
def twentyNines : Quantity where
  sign := some false
  digits := List.replicate 20 '9'
  unit := 'x'

/-- Three of something, without a sign. -/
def threeMarks : Quantity where
  sign := none
  digits := ['3']
  unit := '!'

/-- An error that a quantity has on no day it has in no context, unless the evaluation breaks off
with it. -/
theorem Quantity.dateValue_ne {q : Quantity} {error : EvalError}
    (hbreak : ∀ i, error ≠ .brokenOff i)
    (h : ∀ ctx today, valueOn ctx today q.source ≠ .error error) (ctx : Context) :
    dateValue ctx q.source ≠ .error error := by
  by_cases htoday : ctx.HasToday
  · rw [dateValue_of_hasToday htoday]
    exact h ctx ctx.today
  · rw [dateValue_of_not_hasToday htoday]
    exact fun heq => hbreak ctx.now (Except.error.inj heq).symm

/-- Not every quantity of an unknown unit is said to be that. -/
theorem dateValue_ne_unknownUnit :
    twentyNines.source = "+99999999999999999999x" ∧ threeMarks.source = "3!" ∧
      ∀ q ∈ [twentyNines, threeMarks], (∀ p : Period, q.unit ≠ p.letter) ∧
        ∀ ctx unit, dateValue ctx q.source ≠ .error (.unknownUnit unit) := by
  refine ⟨by decide, by decide, ?_⟩
  intro q hq
  rcases List.mem_pair.1 hq with rfl | rfl
  · refine ⟨fun p => by cases p <;> decide, ?_⟩
    intro ctx unit
    refine Quantity.dateValue_ne (by simp) (fun ctx today => ?_) ctx
    rw [Quantity.valueOn_source, if_pos (by decide), if_neg (by decide +kernel)]
    simp
  · refine ⟨fun p => by cases p <;> decide, ?_⟩
    intro ctx unit
    refine Quantity.dateValue_ne (by simp) (fun ctx today => ?_) ctx
    rw [Quantity.valueOn_source, if_neg (by decide)]
    simp

end Almanac
