import Almanac.Iteration.Interval
import Almanac.Proofs.Operation.Shift
import Almanac.Proofs.Text.Blank
import Almanac.Proofs.Text.Digits

/-!
# Written intervals

An interval is written as components, each a number and the letter of its unit.  What counts is
their exact total: although the text is read with numbers of 64 bits, a number that does not fit
can only stand in a text whose total is beyond the limits of an interval anyway.

Main definitions:

- `Component`: a number and its unit as they are written.
- `Tally.plus`, `Tally.Fits`: a tally with the exact totals of more components, and that 64 bits
  hold the totals of a tally.
- `Tally.Covers`: that a tally comes from components and the digits after them.
- `Interval.Adds`: the interval of exact totals.
- `ReadsTotal`: that the interval of a text is that of the total of its components.
- `Component.Mixed`, `Component.Counts`: the units and the numbers of both classes.

Main results:

- Theorem `Tally.foldlM_text_eq_some_iff`: one component is read exactly if its exact total fits.
- Theorem `Tally.foldlM_joined_eq_some_iff`: so are components one after the other.
- Theorem `Tally.covers_of_foldlM`: nothing else is read.
- Theorem `parseInterval_of_class`: intervals with units of one class.
- Theorem `parseInterval_of_mixed`: intervals with units of both classes.
-/

namespace Almanac

open Text

/-! ## Units -/

namespace Period

variable {p : Period}

theorem seconds_eq_zero_iff : p.seconds = 0 ↔ p.isCalendar = true := by
  cases p <;> decide

/-- The units that have no months are those of fixed length. -/
theorem months_eq_zero_iff : p.months = 0 ↔ p.isCalendar = false := by
  cases p <;> decide

/-- Every unit counts for something. -/
theorem seconds_pos_or_months_pos (p : Period) : 0 < p.seconds ∨ 0 < p.months := by
  cases p <;> decide

/-- The letter of a unit is no digit. -/
theorem isDigit_letter (p : Period) : p.letter.isDigit = false := by
  cases p <;> rfl

/-- The letter of a unit is no blank. -/
theorem not_isBlank_letter (p : Period) : isBlank p.letter = false := by
  cases p <;> decide

/-- Units are known by their letters. -/
theorem ofLetter?_eq_some_iff {c : Char} : ofLetter? c = some p ↔ c = p.letter := by
  constructor
  · intro h
    have hletter := List.find?_some h
    exact (beq_iff_eq.1 hletter).symm
  · rintro rfl
    exact p.ofLetter?_letter

end Period

/-! ## Components -/

/-- A number and its unit as they are written. -/
structure Component where
  digits : List Char
  unit : Period
  digits_ne_nil : digits ≠ [] := by decide
  isDigit_of_mem : ∀ c ∈ digits, c.isDigit = true := by exact List.all_eq_true.1 rfl

namespace Component

/-- The number that is written. -/
def size (c : Component) : Nat :=
  valueOf c.digits

/-- The text of a component. -/
def text (c : Component) : List Char :=
  c.digits ++ [c.unit.letter]

/-- The seconds that a component counts for. -/
def seconds (c : Component) : Nat :=
  c.size * c.unit.seconds

/-- The months that a component counts for. -/
def months (c : Component) : Nat :=
  c.size * c.unit.months

/-- The text of components, one after the other. -/
def joined (cs : List Component) : List Char :=
  cs.flatMap text

/-- What components add up to if each counts for an amount. -/
def total (amount : Component → Nat) (cs : List Component) : Nat :=
  (cs.map amount).sum

variable {c : Component} {cs : List Component} {amount : Component → Nat}

@[simp] theorem joined_nil : joined [] = [] :=
  rfl

@[simp] theorem joined_cons (c : Component) (cs : List Component) :
    joined (c :: cs) = c.text ++ joined cs :=
  rfl

/-- The text of components in two parts. -/
@[simp] theorem joined_append (cs ds : List Component) :
    joined (cs ++ ds) = joined cs ++ joined ds :=
  List.flatMap_append

@[simp] theorem total_nil (amount : Component → Nat) : total amount [] = 0 :=
  rfl

@[simp] theorem total_cons (amount : Component → Nat) (c : Component) (cs : List Component) :
    total amount (c :: cs) = amount c + total amount cs :=
  rfl

/-- Amounts are zero in total if each is. -/
theorem total_eq_zero_iff : total amount cs = 0 ↔ ∀ c ∈ cs, amount c = 0 := by
  simp [total, List.sum_eq_zero_iff]

/-- A component counts for no seconds if its unit is of the calendar, or if its number is zero. -/
theorem seconds_eq_zero_iff : c.seconds = 0 ↔ c.unit.isCalendar = false → c.size = 0 := by
  rw [seconds, Nat.mul_eq_zero, Period.seconds_eq_zero_iff]
  cases c.unit.isCalendar <;> simp

/-- A component counts for no months if its unit is of fixed length, or if its number is zero. -/
theorem months_eq_zero_iff : c.months = 0 ↔ c.unit.isCalendar = true → c.size = 0 := by
  rw [months, Nat.mul_eq_zero, Period.months_eq_zero_iff]
  cases c.unit.isCalendar <;> simp

/-- A number counts for no less than itself. -/
theorem size_le_seconds_or_size_le_months (c : Component) :
    c.size ≤ c.seconds ∨ c.size ≤ c.months := by
  rcases c.unit.seconds_pos_or_months_pos with hunit | hunit
  · exact .inl (Nat.le_mul_of_pos_right _ hunit)
  · exact .inr (Nat.le_mul_of_pos_right _ hunit)

/-- The unit of a component stands in its text, and in every text that has it as a part. -/
theorem letter_mem_joined (h : c ∈ cs) : c.unit.letter ∈ joined cs :=
  List.mem_flatMap.2 ⟨c, h, by simp [text]⟩

end Component

/-! ## Reading components -/

/-- A number that is not negative is kept exactly if 64 bits hold it. -/
theorem count?_eq_some_iff_of_nonneg {n m : Int} (hn : 0 ≤ n) :
    count? n = some m ↔ m = n ∧ n ≤ maxCount := by
  have hmin : minCount ≤ n := Int.le_trans (by decide) hn
  simp [count?, hmin, and_comm, eq_comm]

namespace Tally

open Component

variable {t t' : Tally} {c : Component} {cs ds : List Component}

/-- A tally with the exact totals of more components. -/
def plus (t : Tally) (cs : List Component) : Tally where
  seconds := t.seconds + total Component.seconds cs
  months := t.months + total Component.months cs
  digits := []

/-- No number is left without a unit, and 64 bits hold the totals. -/
structure Fits (t : Tally) : Prop where
  digits_eq_nil : t.digits = []
  seconds_nonneg : 0 ≤ t.seconds
  seconds_le : t.seconds ≤ maxCount
  months_nonneg : 0 ≤ t.months
  months_le : t.months ≤ maxCount

/-- An empty tally fits. -/
theorem fits_empty : Fits {} := by
  constructor <;> decide

/-- Components are added to a tally one by one. -/
theorem plus_cons (t : Tally) (c : Component) (cs : List Component) :
    t.plus (c :: cs) = (t.plus [c]).plus cs := by
  simp only [plus, total_cons, total_nil, Nat.add_zero, Nat.cast_add, Int.add_assoc]

/-- Totals that fit have fitted before more was added to them. -/
theorem Fits.of_plus (h : t.Fits) (hplus : ((t.plus cs).plus ds).Fits) : (t.plus cs).Fits := by
  obtain ⟨-, hseconds, -, hmonths, -⟩ := h
  obtain ⟨-, -, hsecondsLe, -, hmonthsLe⟩ := hplus
  simp only [plus] at hsecondsLe hmonthsLe
  constructor <;> simp only [plus] <;> omega

/-- A total is kept exactly if 64 bits hold it. -/
theorem addTo?_eq_some_iff {total n r : Int} {scale : Nat} (htotal : 0 ≤ total) (hn : 0 ≤ n) :
    addTo? total n scale = some r ↔ r = total + n * scale ∧ r ≤ maxCount := by
  have hproduct : 0 ≤ n * scale := Int.mul_nonneg hn (Int.natCast_nonneg _)
  simp only [addTo?, Option.bind_eq_some_iff, count?_eq_some_iff_of_nonneg hproduct]
  constructor
  · rintro ⟨_, ⟨rfl, -⟩, hr⟩
    obtain ⟨rfl, hle⟩ := (count?_eq_some_iff_of_nonneg (by omega)).1 hr
    exact ⟨rfl, hle⟩
  · rintro ⟨rfl, hle⟩
    exact ⟨_, ⟨rfl, by omega⟩, (count?_eq_some_iff_of_nonneg (by omega)).2 ⟨rfl, hle⟩⟩

/-- A number of units is added, in the place of its digits, exactly if the totals with it fit. -/
theorem add?_size_eq_some_iff (h : t.Fits) (c : Component) (digits : List Char) :
    { t with digits := digits }.add? c.size c.unit = some t' ↔ t' = t.plus [c] ∧ t'.Fits := by
  obtain ⟨-, hseconds, hsecondsLe, hmonths, hmonthsLe⟩ := h
  have hsize : (0 : Int) ≤ c.size := Int.natCast_nonneg _
  have hmoreSeconds : (0 : Int) ≤ c.size * c.unit.seconds := Int.natCast_nonneg (_ * _)
  have hmoreMonths : (0 : Int) ≤ c.size * c.unit.months := Int.natCast_nonneg (_ * _)
  have hplus : t.plus [c] =
      { seconds := t.seconds + c.size * c.unit.seconds
        months := t.months + c.size * c.unit.months
        digits := [] } := by
    simp [plus, Component.seconds, Component.months]
  rw [hplus, add?]
  split <;> rename_i hunit
  · have hzero : c.unit.seconds = 0 := Period.seconds_eq_zero_iff.2 hunit
    simp only [Option.map_eq_some_iff, addTo?_eq_some_iff hmonths hsize, hzero, Nat.cast_zero,
      Int.mul_zero, Int.add_zero]
    constructor
    · rintro ⟨_, ⟨rfl, hle⟩, rfl⟩
      exact ⟨rfl, rfl, hseconds, hsecondsLe, Int.add_nonneg hmonths hmoreMonths, hle⟩
    · rintro ⟨rfl, hfits⟩
      exact ⟨_, ⟨rfl, hfits.months_le⟩, rfl⟩
  · have hzero : c.unit.months = 0 := Period.months_eq_zero_iff.2 (Bool.eq_false_iff.2 hunit)
    simp only [Option.map_eq_some_iff, addTo?_eq_some_iff hseconds hsize, hzero, Nat.cast_zero,
      Int.mul_zero, Int.add_zero]
    constructor
    · rintro ⟨_, ⟨rfl, hle⟩, rfl⟩
      exact ⟨rfl, rfl, Int.add_nonneg hseconds hmoreSeconds, hle, hmonths, hmonthsLe⟩
    · rintro ⟨rfl, hfits⟩
      exact ⟨_, ⟨rfl, hfits.seconds_le⟩, rfl⟩

/-- A number is no more than what it counts for, so it fits if the totals with it do. -/
theorem Fits.size_le (h : t.Fits) (hplus : (t.plus [c]).Fits) : (c.size : Int) ≤ maxCount := by
  obtain ⟨-, hseconds, -, hmonths, -⟩ := h
  obtain ⟨-, -, hsecondsLe, -, hmonthsLe⟩ := hplus
  simp only [plus, total_cons, total_nil, Nat.add_zero] at hsecondsLe hmonthsLe
  rcases c.size_le_seconds_or_size_le_months with hle | hle <;> omega

/-- Digits wait for their unit. -/
theorem foldlM_digits {digits : List Char} (hdigits : ∀ c ∈ digits, c.isDigit = true)
    (rest : List Char) (t : Tally) :
    (digits ++ rest).foldlM read? t =
      rest.foldlM read? { t with digits := t.digits ++ digits } := by
  induction digits generalizing t with
  | nil => simp
  | cons d digits ih =>
      have hd := hdigits d (List.mem_cons_self ..)
      have hread : t.read? d = some { t with digits := t.digits ++ [d] } := by simp [read?, hd]
      rw [List.cons_append, List.foldlM_cons, hread, Option.bind_eq_bind, Option.bind_some,
        ih fun c hc => hdigits c (List.mem_cons_of_mem _ hc), List.append_assoc]
      rfl

/-- One component is read exactly if the totals with it fit.  The limit on the number itself
changes nothing, because the total is no less. -/
theorem foldlM_text_eq_some_iff (h : t.Fits) (c : Component) :
    c.text.foldlM read? t = some t' ↔ t' = t.plus [c] ∧ t'.Fits := by
  have hread : { t with digits := c.digits }.read? c.unit.letter =
      (count? c.size).bind fun n => { t with digits := c.digits }.add? n c.unit := by
    simp [read?, c.unit.isDigit_letter, c.digits_ne_nil, c.unit.ofLetter?_letter, size]
  rw [text, foldlM_digits c.isDigit_of_mem, h.digits_eq_nil, List.nil_append, List.foldlM_cons,
    hread]
  simp only [List.foldlM_nil, Option.bind_eq_bind, Option.pure_def, Option.bind_fun_some]
  rw [Option.bind_eq_some_iff]
  constructor
  · rintro ⟨n, hn, hadd⟩
    obtain ⟨rfl, -⟩ := (count?_eq_some_iff_of_nonneg (Int.natCast_nonneg _)).1 hn
    exact (add?_size_eq_some_iff h c _).1 hadd
  · rintro ⟨rfl, hfits⟩
    have hle : (c.size : Int) ≤ maxCount := h.size_le hfits
    exact ⟨c.size, (count?_eq_some_iff_of_nonneg (Int.natCast_nonneg _)).2 ⟨rfl, hle⟩,
      (add?_size_eq_some_iff h c _).2 ⟨rfl, hfits⟩⟩

/-- Components are read exactly if the totals with all of them fit. -/
theorem foldlM_joined_eq_some_iff (h : t.Fits) (cs : List Component) :
    (joined cs).foldlM read? t = some t' ↔ t' = t.plus cs ∧ t'.Fits := by
  induction cs generalizing t with
  | nil =>
      have hplus : t.plus [] = t := by
        cases t
        simp [plus, ← h.digits_eq_nil]
      simp only [joined_nil, List.foldlM_nil, Option.pure_def, Option.some.injEq, hplus]
      constructor
      · rintro rfl
        exact ⟨rfl, h⟩
      · rintro ⟨rfl, -⟩
        rfl
  | cons c cs ih =>
      rw [joined_cons, List.foldlM_append, Option.bind_eq_bind, Option.bind_eq_some_iff, plus_cons]
      constructor
      · rintro ⟨mid, hmid, hrest⟩
        obtain ⟨rfl, hfits⟩ := (foldlM_text_eq_some_iff h c).1 hmid
        exact (ih hfits).1 hrest
      · rintro ⟨rfl, hfits⟩
        have hmid := h.of_plus hfits
        exact ⟨_, (foldlM_text_eq_some_iff h c).2 ⟨rfl, hmid⟩, (ih hmid).2 ⟨rfl, hfits⟩⟩

/-! ### Nothing else is read -/

/-- A tally comes from a text of components and the digits that wait for their unit. -/
def Covers (t : Tally) (front : List Char) : Prop :=
  (∃ cs, front = joined cs ++ t.digits) ∧ ∀ c ∈ t.digits, c.isDigit = true

/-- When a number gets its unit, no digits are left. -/
theorem digits_of_add? {n : Int} {p : Period} (h : t.add? n p = some t') : t'.digits = [] := by
  unfold add? at h
  split at h
  all_goals
    obtain ⟨total, -, rfl⟩ := Option.map_eq_some_iff.1 h
    rfl

/-- One more character makes up a component, or waits with the digits before it. -/
theorem Covers.read {front : List Char} {d : Char} (h : t.Covers front)
    (hread : t.read? d = some t') : t'.Covers (front ++ [d]) := by
  obtain ⟨⟨cs, rfl⟩, hdigits⟩ := h
  unfold read? at hread
  split at hread
  · rename_i hd
    cases hread
    refine ⟨⟨cs, List.append_assoc ..⟩, ?_⟩
    intro c hc
    rcases List.mem_append.1 hc with hc | hc
    · exact hdigits c hc
    · rwa [List.mem_singleton.1 hc]
  · split at hread
    · cases hread
    · rename_i hne
      obtain ⟨n, -, hread⟩ := Option.bind_eq_some_iff.1 hread
      obtain ⟨p, hp, hadd⟩ := Option.bind_eq_some_iff.1 hread
      obtain rfl := Period.ofLetter?_eq_some_iff.1 hp
      have hnil := digits_of_add? hadd
      refine ⟨⟨cs ++ [⟨t.digits, p, hne, hdigits⟩], by simp [hnil, text]⟩, ?_⟩
      simp [hnil]

/-- What is read of a text is components and digits after them. -/
theorem covers_of_foldlM {front rest : List Char} (h : t.Covers front)
    (hread : rest.foldlM read? t = some t') : t'.Covers (front ++ rest) := by
  induction rest generalizing t front with
  | nil =>
      cases hread
      rwa [List.append_nil]
  | cons d rest ih =>
      rw [List.foldlM_cons, Option.bind_eq_bind] at hread
      obtain ⟨mid, hmid, hrest⟩ := Option.bind_eq_some_iff.1 hread
      rw [List.append_cons]
      exact ih (h.read hmid) hrest

end Tally

/-! ## Exact totals -/

namespace Interval

/-- The interval of exact totals: one of them is zero and the other is positive and within a
limit. -/
inductive Adds : Nat → Nat → Interval → Prop
  | fixed {seconds : Nat} (pos : 0 < seconds) (le : seconds ≤ 9223372036854775) :
      Adds seconds 0 (.fixed ⟨seconds * nanosPerSecond⟩)
  | calendar {months : Nat} (pos : 0 < months) (le : months ≤ 4294967295) :
      Adds 0 months (.calendar months)

variable {seconds months : Nat} {i : Interval}

/-- Totals of seconds alone. -/
theorem adds_zero_right_iff :
    Adds seconds 0 i ↔
      0 < seconds ∧ seconds ≤ 9223372036854775 ∧ i = .fixed ⟨seconds * nanosPerSecond⟩ := by
  constructor
  · rintro (⟨pos, le⟩ | ⟨pos, le⟩)
    · exact ⟨pos, le, rfl⟩
    · exact absurd pos (Nat.lt_irrefl 0)
  · rintro ⟨pos, le, rfl⟩
    exact .fixed pos le

/-- Totals of months alone. -/
theorem adds_zero_left_iff :
    Adds 0 months i ↔ 0 < months ∧ months ≤ 4294967295 ∧ i = .calendar months := by
  constructor
  · rintro (⟨pos, le⟩ | ⟨pos, le⟩)
    · exact absurd pos (Nat.lt_irrefl 0)
    · exact ⟨pos, le, rfl⟩
  · rintro ⟨pos, le, rfl⟩
    exact .calendar pos le

/-- Which totals are those of an interval. -/
theorem exists_adds_iff :
    (∃ i, Adds seconds months i) ↔
      (seconds = 0 ↔ months ≠ 0) ∧ seconds ≤ 9223372036854775 ∧ months ≤ 4294967295 := by
  constructor
  · rintro ⟨_, ⟨pos, le⟩ | ⟨pos, le⟩⟩ <;> omega
  · rintro ⟨hone, hseconds, hmonths⟩
    rcases Nat.eq_zero_or_pos seconds with rfl | hpos
    · exact ⟨_, .calendar (Nat.pos_of_ne_zero (hone.1 rfl)) hmonths⟩
    · obtain rfl : months = 0 := by omega
      exact ⟨_, .fixed hpos hseconds⟩

end Interval

namespace Tally

open Component

variable {cs : List Component} {i : Interval}

/-- The limits of an interval are within the limits of the totals. -/
theorem fits_of_adds
    (h : Interval.Adds (total Component.seconds cs) (total Component.months cs) i) :
    (plus {} cs).Fits := by
  obtain ⟨-, hseconds, hmonths⟩ := Interval.exists_adds_iff.1 ⟨i, h⟩
  constructor <;> simp only [plus, maxCount] <;> omega

/-- The two totals are an interval if one of them is zero and the other one is not. -/
theorem interval?_eq_some_iff {seconds months : Nat} :
    interval? { seconds, months } = some i ↔ Interval.Adds seconds months i := by
  have hlimit : Span.maxSeconds = 9223372036854775 := by decide
  simp only [interval?, ne_eq, not_true_eq_false, if_false, Int.natCast_pos, Int.natCast_eq_zero,
    Interval.maxMonths, Int.toNat_natCast]
  split <;> rename_i hfixed
  · obtain ⟨hpos, rfl⟩ := hfixed
    simp only [Option.map_eq_some_iff, Span.ofSeconds?_eq_some_iff, hlimit,
      Interval.adds_zero_right_iff]
    constructor
    · rintro ⟨_, ⟨rfl, -, hle⟩, rfl⟩
      exact ⟨hpos, Int.ofNat_le.1 hle, rfl⟩
    · rintro ⟨-, hle, rfl⟩
      exact ⟨_, ⟨rfl, by omega, Int.ofNat_le.2 hle⟩, rfl⟩
  · rw [Option.ite_none_right_eq_some]
    constructor
    · rintro ⟨⟨rfl, hpos, hle⟩, hi⟩
      cases hi
      exact .calendar hpos (Int.ofNat_le.1 hle)
    · rintro (⟨hpos, hle⟩ | ⟨hpos, hle⟩)
      · exact absurd ⟨hpos, rfl⟩ hfixed
      · exact ⟨⟨rfl, hpos, Int.ofNat_le.2 hle⟩, rfl⟩

end Tally

/-! ## Intervals of texts -/

section

open Component

variable {source : String} {cs : List Component} {text : List Char} {i : Interval}

/-- The interval of components is that of their exact totals. -/
theorem Interval.ofChars?_eq_some_iff_of_joined (h : joined cs = withoutPlus text) :
    ofChars? text = some i ↔ Adds (total Component.seconds cs) (total Component.months cs) i := by
  have hplus : Tally.plus {} cs =
      { seconds := (total Component.seconds cs : Nat)
        months := (total Component.months cs : Nat) } := by
    simp [Tally.plus]
  rw [ofChars?, ← h, Option.bind_eq_some_iff, ← Tally.interval?_eq_some_iff, ← hplus]
  constructor
  · rintro ⟨t, ht, hi⟩
    rwa [← ((Tally.foldlM_joined_eq_some_iff Tally.fits_empty cs).1 ht).1]
  · intro hi
    rw [hplus, Tally.interval?_eq_some_iff] at hi
    refine ⟨_, (Tally.foldlM_joined_eq_some_iff Tally.fits_empty cs).2
      ⟨rfl, Tally.fits_of_adds hi⟩, ?_⟩
    rwa [hplus, Tally.interval?_eq_some_iff]

/-- What is no sequence of components is no interval. -/
theorem Interval.exists_joined_of_ofChars? (h : ofChars? text = some i) :
    ∃ cs, joined cs = withoutPlus text := by
  obtain ⟨t, ht, hi⟩ := Option.bind_eq_some_iff.1 h
  have hempty : Tally.Covers {} [] := ⟨⟨[], rfl⟩, by simp⟩
  obtain ⟨⟨cs, hcs⟩, -⟩ := Tally.covers_of_foldlM hempty ht
  have hnil : t.digits = [] := by
    by_contra hne
    simp [Tally.interval?, hne] at hi
  rw [hnil, List.append_nil, List.nil_append] at hcs
  exact ⟨cs, hcs.symm⟩

/-- What is read as an interval is a text of components, and adds their totals. -/
theorem Interval.ofChars?_eq_some_iff :
    ofChars? text = some i ↔
      ∃ cs, joined cs = withoutPlus text ∧
        Adds (total Component.seconds cs) (total Component.months cs) i := by
  constructor
  · intro hi
    obtain ⟨cs, hcs⟩ := exists_joined_of_ofChars? hi
    exact ⟨cs, hcs, (ofChars?_eq_some_iff_of_joined hcs).1 hi⟩
  · rintro ⟨cs, hcs, hi⟩
    exact (ofChars?_eq_some_iff_of_joined hcs).2 hi

/-- A text of blanks is no interval, and no error. -/
theorem parseInterval_of_trim_eq_nil (h : trim source.toList = []) :
    parseInterval source = .ok none := by
  simp only [parseInterval, h]

/-- The blanks around an interval are left out. -/
theorem parseInterval_of_trim_ne_nil (h : trim source.toList ≠ []) :
    parseInterval source =
      match Interval.ofChars? (trim source.toList) with
      | some interval => .ok (some interval)
      | none => .error (.invalidInterval source) := by
  unfold parseInterval
  split <;> rename_i htrim
  · exact absurd htrim h
  · rfl

/-- A text that is more than blanks is an interval if what is between them is. -/
theorem parseInterval_eq_ok_some_iff (h : trim source.toList ≠ []) :
    parseInterval source = .ok (some i) ↔ Interval.ofChars? (trim source.toList) = some i := by
  rw [parseInterval_of_trim_ne_nil h]
  cases Interval.ofChars? (trim source.toList) <;> simp

/-- A text that is not blank is an interval or is refused. -/
theorem parseInterval_eq_error_iff (h : trim source.toList ≠ []) :
    parseInterval source = .error (.invalidInterval source) ↔
      ∀ i, parseInterval source ≠ .ok (some i) := by
  rw [parseInterval_of_trim_ne_nil h]
  cases Interval.ofChars? (trim source.toList) <;> simp

/-! ### Units of one class -/

/-- Components that a text is written with, of which the total is positive and within a limit. -/
structure WritesWithin (source : String) (amount : Component → Nat) (limit : Nat)
    (cs : List Component) : Prop where
  joined_eq : joined cs = withoutPlus (trim source.toList)
  total_pos : 0 < total amount cs
  total_le : total amount cs ≤ limit

/-- A text is exactly the interval of the total of its components, and is refused if it has no
components with a total within the limit. -/
structure ReadsTotal (source : String) (amount : Component → Nat) (limit : Nat)
    (make : Nat → Interval) : Prop where
  ok_iff : ∀ i, parseInterval source = .ok (some i) ↔
    ∃ cs, WritesWithin source amount limit cs ∧ i = make (total amount cs)
  error_of_not : (¬ ∃ cs, WritesWithin source amount limit cs) →
    parseInterval source = .error (.invalidInterval source)

/-- One amount decides if it is what the totals of every writing of a text depend on. -/
theorem readsTotal_of_adds_iff {amount : Component → Nat} {limit : Nat} {make : Nat → Interval}
    (h : trim source.toList ≠ [])
    (hadds : ∀ cs, joined cs = withoutPlus (trim source.toList) → ∀ i,
      Interval.Adds (total Component.seconds cs) (total Component.months cs) i ↔
        0 < total amount cs ∧ total amount cs ≤ limit ∧ i = make (total amount cs)) :
    ReadsTotal source amount limit make := by
  have hok (i : Interval) : parseInterval source = .ok (some i) ↔
      ∃ cs, WritesWithin source amount limit cs ∧ i = make (total amount cs) := by
    rw [parseInterval_eq_ok_some_iff h, Interval.ofChars?_eq_some_iff]
    constructor
    · rintro ⟨cs, hcs, hi⟩
      obtain ⟨hpos, hle, hmake⟩ := (hadds cs hcs i).1 hi
      exact ⟨cs, ⟨hcs, hpos, hle⟩, hmake⟩
    · rintro ⟨cs, ⟨hcs, hpos, hle⟩, hmake⟩
      exact ⟨cs, hcs, (hadds cs hcs i).2 ⟨hpos, hle, hmake⟩⟩
  refine ⟨hok, ?_⟩
  intro hnone
  rw [parseInterval_eq_error_iff h]
  intro i hi
  obtain ⟨cs, hcs, -⟩ := (hok i).1 hi
  exact hnone ⟨cs, hcs⟩

/-- A blank text asks for no interval.  Any other of which the units are all of one class is the
interval of its exact total, and is refused if there is none. -/
theorem parseInterval_of_class (source : String) :
    (trim source.toList = [] → parseInterval source = .ok none) ∧
      (trim source.toList ≠ [] →
        ((∀ p : Period, p.letter ∈ withoutPlus (trim source.toList) → p.isCalendar = false) →
          ReadsTotal source Component.seconds 9223372036854775
            fun seconds => .fixed ⟨seconds * nanosPerSecond⟩) ∧
        ((∀ p : Period, p.letter ∈ withoutPlus (trim source.toList) → p.isCalendar = true) →
          ReadsTotal source Component.months 4294967295 .calendar)) := by
  refine ⟨parseInterval_of_trim_eq_nil, fun h => ⟨?_, ?_⟩⟩
  · intro hfixed
    apply readsTotal_of_adds_iff h
    intro cs hcs i
    have hmonths : total Component.months cs = 0 := by
      rw [total_eq_zero_iff]
      intro c hc
      rw [months_eq_zero_iff, hfixed c.unit (hcs ▸ letter_mem_joined hc)]
      nofun
    rw [hmonths, Interval.adds_zero_right_iff]
  · intro hcalendar
    apply readsTotal_of_adds_iff h
    intro cs hcs i
    have hseconds : total Component.seconds cs = 0 := by
      rw [total_eq_zero_iff]
      intro c hc
      rw [seconds_eq_zero_iff, hcalendar c.unit (hcs ▸ letter_mem_joined hc)]
      nofun
    rw [hseconds, Interval.adds_zero_left_iff]

/-- A blank text, ninety minutes, and a year and a half. -/
theorem parseInterval_of_class_samples :
    parseInterval " \t" = .ok none ∧
      parseInterval " +1h30m " = .ok (some (.fixed ⟨5400 * nanosPerSecond⟩)) ∧
      parseInterval "1Y6M" = .ok (some (.calendar 18)) := by
  have hfixed : ∀ p : Period, p.letter ∈ withoutPlus (trim " +1h30m ".toList) →
      p.isCalendar = false := by
    intro p
    cases p <;> decide
  have hcalendar : ∀ p : Period, p.letter ∈ withoutPlus (trim "1Y6M".toList) →
      p.isCalendar = true := by
    intro p
    cases p <;> decide
  have hhours := ((parseInterval_of_class " +1h30m ").2 (by decide)).1 hfixed
  have hyears := ((parseInterval_of_class "1Y6M").2 (by decide)).2 hcalendar
  refine ⟨(parseInterval_of_class " \t").1 (by decide), (hhours.ok_iff _).2 ?_,
    (hyears.ok_iff _).2 ?_⟩
  · exact ⟨[{ digits := ['1'], unit := .hour }, { digits := ['3', '0'], unit := .minute }],
      ⟨by decide, by decide +kernel, by decide +kernel⟩, by decide +kernel⟩
  · exact ⟨[{ digits := ['1'], unit := .year }, { digits := ['6'], unit := .month }],
      ⟨by decide, by decide +kernel, by decide +kernel⟩, by decide +kernel⟩

/-! ### Units of both classes -/

namespace Component

/-- The text of components, after a plus sign or not. -/
def written (plus : Bool) (cs : List Component) : String :=
  String.ofList ((if plus then ['+'] else []) ++ joined cs)

/-- There are units of both classes, whatever their numbers are. -/
structure Mixed (cs : List Component) : Prop where
  exists_fixed : ∃ c ∈ cs, c.unit.isCalendar = false
  exists_calendar : ∃ c ∈ cs, c.unit.isCalendar = true

/-- A unit of a class has a number other than zero. -/
def Counts (calendar : Bool) (cs : List Component) : Prop :=
  ∃ c ∈ cs, c.unit.isCalendar = calendar ∧ c.size ≠ 0

/-- The units of fixed length count if they come to more than nothing. -/
theorem counts_false_iff : Counts false cs ↔ total Component.seconds cs ≠ 0 := by
  simp [Counts, total_eq_zero_iff, seconds_eq_zero_iff]

/-- The units of the calendar count if they come to more than nothing. -/
theorem counts_true_iff : Counts true cs ↔ total Component.months cs ≠ 0 := by
  simp [Counts, total_eq_zero_iff, months_eq_zero_iff]

/-- There are no blanks in a text of components. -/
theorem not_isBlank_of_mem_joined {d : Char} (h : d ∈ joined cs) :
    isBlank d = false := by
  obtain ⟨c, -, hd⟩ := List.mem_flatMap.1 h
  rcases List.mem_append.1 hd with hd | hd
  · exact not_isBlank_of_isDigit (c.isDigit_of_mem d hd)
  · rw [List.mem_singleton.1 hd]
    exact c.unit.not_isBlank_letter

/-- A text of components does not begin with a plus sign. -/
theorem withoutPlus_joined (cs : List Component) :
    withoutPlus (joined cs) = joined cs := by
  cases cs with
  | nil => rfl
  | cons c cs =>
      obtain ⟨d, digits, hdigits⟩ := List.exists_cons_of_ne_nil c.digits_ne_nil
      have hd : d ≠ '+' := by
        rintro rfl
        exact absurd (c.isDigit_of_mem '+' (hdigits ▸ List.mem_cons_self ..)) (by decide)
      rw [joined_cons, text, hdigits, List.cons_append, List.cons_append, withoutPlus]
      simpa using hd

/-- There are no blanks around a text of components. -/
theorem trim_written (plus : Bool) (cs : List Component) :
    trim (written plus cs).toList = (written plus cs).toList := by
  apply trim_of_not_isBlank
  intro d hd
  rw [written, String.toList_ofList, List.mem_append] at hd
  rcases hd with hd | hd
  · cases plus
    · cases hd
    · rw [List.mem_singleton.1 hd]
      rfl
  · exact not_isBlank_of_mem_joined hd

/-- The plus sign before components is left out. -/
theorem withoutPlus_written (plus : Bool) (cs : List Component) :
    withoutPlus (written plus cs).toList = joined cs := by
  rw [written, String.toList_ofList]
  cases plus
  · exact withoutPlus_joined cs
  · rfl

theorem trim_written_ne_nil (plus : Bool) (h : cs ≠ []) :
    trim (written plus cs).toList ≠ [] := by
  obtain ⟨c, cs, rfl⟩ := List.exists_cons_of_ne_nil h
  intro hnil
  have hletter := letter_mem_joined (List.mem_cons_self (a := c) (l := cs))
  rw [← withoutPlus_written plus, ← trim_written, hnil] at hletter
  cases hletter

end Component

/-- Components that are written out are the interval of their exact totals. -/
theorem parseInterval_written_eq_ok_iff (plus : Bool) (h : cs ≠ []) :
    parseInterval (written plus cs) = .ok (some i) ↔
      Interval.Adds (total Component.seconds cs) (total Component.months cs) i := by
  rw [parseInterval_eq_ok_some_iff (trim_written_ne_nil plus h), trim_written,
    Interval.ofChars?_eq_some_iff_of_joined (withoutPlus_written plus cs).symm]

/-- An interval with units of both classes is refused if both of them count for something, if
neither does, or if a total is beyond its limit.  Else it is the interval of the one class that
counts: a unit with the number zero counts for nothing. -/
theorem parseInterval_of_mixed (h : Mixed cs) (plus : Bool) :
    (parseInterval (written plus cs) = .error (.invalidInterval (written plus cs)) ↔
      (Counts false cs ↔ Counts true cs) ∨
        9223372036854775 < total Component.seconds cs ∨
        4294967295 < total Component.months cs) ∧
      ∀ i, parseInterval (written plus cs) = .ok (some i) ↔
        Interval.Adds (total Component.seconds cs) (total Component.months cs) i := by
  have hne : cs ≠ [] := by
    obtain ⟨c, hc, -⟩ := h.exists_fixed
    exact List.ne_nil_of_mem hc
  refine ⟨?_, fun i => parseInterval_written_eq_ok_iff plus hne⟩
  simp only [parseInterval_eq_error_iff (trim_written_ne_nil plus hne), ne_eq,
    parseInterval_written_eq_ok_iff plus hne]
  rw [← not_exists, Interval.exists_adds_iff, counts_false_iff, counts_true_iff]
  omega

/-- One month, after no days. -/
def noDaysOneMonth : List Component :=
  [{ digits := ['0'], unit := .day }, { digits := ['1'], unit := .month }]

/-- One day and one month are refused. -/
theorem parseInterval_of_mixed_day_month :
    parseInterval "+1d1M" = .error (.invalidInterval "+1d1M") := by
  let cs : List Component :=
    [{ digits := ['1'], unit := .day }, { digits := ['1'], unit := .month }]
  have hmixed : Mixed cs := ⟨⟨_, List.mem_cons_self .., rfl⟩,
    ⟨_, List.mem_cons_of_mem _ (List.mem_cons_self ..), rfl⟩⟩
  have hcounts : Counts false cs ↔ Counts true cs := by
    rw [counts_false_iff, counts_true_iff]
    decide +kernel
  exact (parseInterval_of_mixed hmixed true).1.2 (.inl hcounts)

/-- Units of both classes are not always refused. -/
theorem parseInterval_no_days_one_month :
    Mixed noDaysOneMonth ∧ written false noDaysOneMonth = "0d1M" ∧
      parseInterval (written false noDaysOneMonth) = .ok (some (.calendar 1)) := by
  refine ⟨⟨⟨_, List.mem_cons_self .., rfl⟩,
    ⟨_, List.mem_cons_of_mem _ (List.mem_cons_self ..), rfl⟩⟩, by decide, by decide +kernel⟩

end

end Almanac
