import Almanac.Operation.Shift
import Almanac.Proofs.Calendar.MonthShift
import Almanac.Proofs.Zone.Fixed

/-!
# Exact shifts

A shift passes several limits, on the count of units, on the span that they last and on the
number of months.  All of them are looser than the calendar: where the exact result is in the
calendar, a shift finds it, and else the shift is out of range.

Main definitions:

- `Period.Moves`: that a civil time lies so many units after another.
- `Period.Exact`: what an exact shift in UTC results in.

Main results:

- Theorem `shift_letter`: a shift with the limits taken away that never matter, where it does not
  break off.
- Theorem `inRange_of_shift`: where it does not.
- Theorem `outOfRange_of_shift`: no other error arises.
- Theorem `Civil.bind_add?_eq_some_iff`: which civil time is found so many seconds later.
- Theorem `orOutOfRange_of_unique`: what is found exactly if the calendar reaches so far.
- Theorem `Period.exists_moves_iff`: there is one exact result.
- Theorem `Period.exact_shift`: a shift in UTC is exact.
-/

namespace Almanac

open Text

variable {p : Period} {z : Zone} {i r : Instant} {c d : Civil} {amount n : Int}

/-- What is out of range is reported with the given text. -/
theorem orOutOfRange_eq_error_iff {α : Type} {text : List Char} {o : Option α} {e : EvalError} :
    orOutOfRange text o = .error e ↔ o = none ∧ e = .outOfRange (String.ofList text) := by
  cases o <;> simp [orOutOfRange, eq_comm]

/-! ## Limits -/

/-- The limit on counts never matters where the next limit is narrower. -/
theorem count?_bind {α : Type} {f : Int → Option α}
    (hf : ∀ n, ¬ (minCount ≤ n ∧ n ≤ maxCount) → f n = none) (n : Int) :
    (count? n).bind f = f n := by
  unfold count?
  split
  · rfl
  · rename_i hlimit
    rw [hf n hlimit]
    rfl

namespace Span

/-- A span of seconds is made exactly if the limit on spans allows it. -/
theorem ofSeconds?_eq_some_iff {s : Span} :
    ofSeconds? n = some s ↔ s = ⟨n * nanosPerSecond⟩ ∧ -maxSeconds ≤ n ∧ n ≤ maxSeconds := by
  rw [ofSeconds?, Option.ite_none_right_eq_some, Option.some.injEq, and_comm, eq_comm]

/-- Past the limit on spans there is none. -/
theorem ofSeconds?_eq_none (h : ¬ (-maxSeconds ≤ n ∧ n ≤ maxSeconds)) : ofSeconds? n = none := by
  rw [ofSeconds?, if_neg h]

/-- The limit on spans is tighter than that of 64 bits. -/
theorem count?_bind_ofSeconds? (n : Int) : (count? n).bind ofSeconds? = ofSeconds? n := by
  apply count?_bind
  intro n hlimit
  apply ofSeconds?_eq_none
  simp only [minCount, maxSeconds, maxCount] at hlimit ⊢
  omega

/-- A span of days is one of seconds, if the limit on spans allows it. -/
theorem count?_bind_ofDays? (n : Int) :
    (count? n).bind ofDays? = ofSeconds? (n * secondsPerDay) := by
  rw [count?_bind]
  · exact count?_bind_ofSeconds? _
  · intro n hlimit
    rw [ofDays?, count?_bind_ofSeconds?]
    apply ofSeconds?_eq_none
    simp only [minCount, maxSeconds, maxCount, secondsPerDay] at hlimit ⊢
    omega

end Span

/-- The limit on months is tighter than that of 64 bits. -/
theorem Civil.count?_bind_addMonths? (c : Civil) (n : Int) :
    (count? n).bind c.addMonths? = c.addMonths? n := by
  apply count?_bind
  intro n hlimit
  rw [addMonths?, if_pos]
  simp only [minCount, maxCount, maxMonths] at hlimit ⊢
  omega

/-! ## Any zone -/

theorem Period.ofLetter?_letter (p : Period) : ofLetter? p.letter = some p := by
  cases p <;> rfl

/-- Two results in turn that may lie outside the calendar, with what comes after them. -/
theorem orOutOfRange_bind_orOutOfRange {α β : Type} (text : List Char) (o : Option α)
    (f : α → Option β) (g : β → Except EvalError Instant) :
    (orOutOfRange text o >>= fun a => orOutOfRange text (f a) >>= g) =
      orOutOfRange text (o.bind f) >>= g := by
  cases o <;> rfl

/-- A shift by time that passes, with the limits taken away that never matter. -/
theorem shift_letter_of_seconds {n : Nat} (hmeasure : p.measure = .seconds n) (z : Zone)
    (i : Instant) (amount : Int) :
    shift z i amount p.letter =
      orOutOfRange (signed amount ++ [p.letter]) ((Span.ofSeconds? (amount * n)).bind i.add?) := by
  simp only [shift, p.ofLetter?_letter, hmeasure, Span.count?_bind_ofSeconds?]

/-- A shift from a civil time that the calendar covers, with the limits taken away that never
matter. -/
theorem shift_letter (hc : (z.civil i).InRange) (amount : Int) (p : Period) :
    shift z i amount p.letter =
      match p.measure with
      | .seconds n =>
        orOutOfRange (signed amount ++ [p.letter]) ((Span.ofSeconds? (amount * n)).bind i.add?)
      | .days n =>
        orOutOfRange (signed amount ++ [p.letter])
          ((Span.ofSeconds? (amount * n * secondsPerDay)).bind (z.civil i).add?) >>= z.localize
      | .months n =>
        orOutOfRange (signed amount ++ [p.letter]) ((z.civil i).addMonths? (amount * n)) >>=
          z.localize := by
  have hconsult {β : Type} (f : Civil → Except EvalError β) : z.consult i >>= f = f (z.civil i) := by
    rw [Zone.consult_of_inRange hc]
    rfl
  simp only [shift, p.ofLetter?_letter, hconsult, orOutOfRange_bind_orOutOfRange]
  cases p.measure with
  | seconds n => simp only [Span.count?_bind_ofSeconds?]
  | days n => simp only [Span.count?_bind_ofDays?]
  | months n => simp only [Civil.count?_bind_addMonths?]

/-- A shift by days or months that leads anywhere starts from a civil time that the calendar
covers. -/
theorem inRange_of_shift (hmeasure : ∀ n, p.measure ≠ .seconds n)
    (h : shift z i amount p.letter = .ok r) : (z.civil i).InRange := by
  by_cases hc : (z.civil i).InRange
  · exact hc
  · simp only [shift, p.ofLetter?_letter, Zone.consult_of_not_inRange hc] at h
    split at h
    · rename_i n hn
      exact absurd hn (hmeasure n)
    · cases hspan : (count? (amount * _)).bind Span.ofDays? <;> rw [hspan] at h <;> cases h
    · cases hcount : count? (amount * _) <;> rw [hcount] at h <;> cases h

/-- A shift by what is no unit is an error that names it. -/
theorem shift_of_ofLetter?_eq_none (z : Zone) (i : Instant) (amount : Int) {unit : Char}
    (h : Period.ofLetter? unit = none) :
    shift z i amount unit = .error (.unknownUnit (String.singleton unit)) := by
  simp only [shift, h]

/-- A civil time that is out of range, or for which a zone finds no instant. -/
theorem outOfRange_of_bind_localize {text : List Char} {o : Option Civil} {e : EvalError}
    (h : orOutOfRange text o >>= z.localize = .error e) : ∃ asked, e = .outOfRange asked := by
  cases o with
  | none =>
      cases h
      exact ⟨_, rfl⟩
  | some c => exact ⟨_, (orOutOfRange_eq_error_iff.1 h).2⟩

/-- A shift by a unit that there is fails only out of range, where it does not break off. -/
theorem outOfRange_of_shift {e : EvalError} (hc : (z.civil i).InRange)
    (h : shift z i amount p.letter = .error e) : ∃ text, e = .outOfRange text := by
  rw [shift_letter hc] at h
  split at h
  · exact ⟨_, (orOutOfRange_eq_error_iff.1 h).2⟩
  · exact outOfRange_of_bind_localize h
  · exact outOfRange_of_bind_localize h

/-- One unit is one second, day or month at least. -/
theorem Period.measure_pos (p : Period) :
    match p.measure with
    | .seconds n => 1 ≤ n
    | .days n => 1 ≤ n
    | .months n => 1 ≤ n := by
  cases p <;> simp [measure]

/-- An amount that 64 bits do not hold is out of range. -/
theorem shift_of_maxCount_lt (hc : (z.civil i).InRange) (hamount : maxCount < amount.natAbs) :
    shift z i amount p.letter =
      .error (.outOfRange (String.ofList (signed amount ++ [p.letter]))) := by
  have hlarge {n : Int} {k : Nat} (hn : maxCount < n.natAbs) (hk : 1 ≤ k) :
      maxCount < (n * k).natAbs := by
    rw [Int.natAbs_mul, Int.natAbs_natCast]
    have hle := Nat.le_mul_of_pos_right n.natAbs hk
    omega
  have hspan {n : Int} (hn : maxCount < n.natAbs) : Span.ofSeconds? n = none := by
    apply Span.ofSeconds?_eq_none
    simp only [Span.maxSeconds, maxCount] at hn ⊢
    omega
  have hmonths {c : Civil} {n : Int} (hn : maxCount < n.natAbs) : c.addMonths? n = none := by
    rw [Civil.addMonths?, if_pos]
    simp only [Civil.maxMonths, maxCount] at hn ⊢
    omega
  have hpos := p.measure_pos
  rw [shift_letter hc]
  split <;> rename_i n hmeasure <;> rw [hmeasure] at hpos
  · rw [hspan (hlarge hamount hpos)]
    rfl
  · rw [hspan (hlarge (hlarge hamount hpos) (by decide))]
    rfl
  · rw [hmonths (hlarge hamount hpos)]
    rfl

/-! ## Exact results -/

namespace Civil

/-- A civil time so many seconds after another, at the same fraction of the second. -/
structure SecondsAfter (c : Civil) (seconds : Int) (d : Civil) : Prop where
  seconds : d.seconds = c.seconds + seconds
  nanos : d.nanos = c.nanos

/-- There is one civil time so many seconds after another. -/
theorem exists_secondsAfter_iff (c : Civil) (n : Int) :
    ∃ d, ∀ e, c.SecondsAfter n e ↔ e = d := by
  refine ⟨{ c with seconds := c.seconds + n }, ?_⟩
  intro e
  rw [Civil.ext_iff]
  exact ⟨fun h => ⟨h.seconds, h.nanos⟩, fun h => ⟨h.1, h.2⟩⟩

/-- The first moment of the calendar. -/
def first : Civil :=
  (Date.ofYMD (-262143) 1 1).at .midnight

/-- The last nanosecond of the calendar. -/
def last : Civil :=
  (Date.ofYMD 262142 12 31).at .endOfDay

/-- Away from leap seconds the calendar covers what lies between its first moment and its
last. -/
theorem inRange_iff_between (hc : c.isLeapSecond = false) : c.InRange ↔ first ≤ c ∧ c ≤ last := by
  have hfraction := isLeapSecond_eq_false_iff.1 hc
  have hfirst : first.seconds = Date.minDay * 86400 ∧ first.nanos = 0 := by decide
  have hlast : last.seconds = Date.maxDay * 86400 + 86399 ∧ last.nanos = 999999999 := by decide
  rw [le_iff, le_iff, hfirst.1, hfirst.2, hlast.1, hlast.2]
  simp only [InRange, Date.InRange, date, secondsPerDay, nanosPerSecond] at hfraction ⊢
  omega

/-- Away from leap seconds, the seconds after a reading are counted on from it. -/
theorem secondsAfter_iff (hc : c.isLeapSecond = false) :
    c.SecondsAfter n d ↔ d = c.add ⟨n * nanosPerSecond⟩ := by
  have hfraction := isLeapSecond_eq_false_iff.1 hc
  have hadd : (c.add ⟨n * nanosPerSecond⟩).seconds = c.seconds + n ∧
      (c.add ⟨n * nanosPerSecond⟩).nanos = c.nanos := by
    rw [add_of_isLeapSecond_eq_false hc]
    simp only [ofNanos, toNanos, nanosPerSecond] at hfraction ⊢
    omega
  rw [Civil.ext_iff, hadd.1, hadd.2]
  constructor
  · intro h
    exact ⟨h.seconds, h.nanos⟩
  · rintro ⟨hseconds, hnanos⟩
    exact ⟨hseconds, hnanos⟩

/-- The limit on spans excludes no civil time of the calendar. -/
theorem bind_add?_eq_some_iff (hleap : c.isLeapSecond = false) (hc : c.InRange) :
    (Span.ofSeconds? n).bind c.add? = some d ↔ c.SecondsAfter n d ∧ d.InRange := by
  rw [Option.bind_eq_some_iff]
  constructor
  · rintro ⟨s, hs, hd⟩
    obtain ⟨rfl, -⟩ := Span.ofSeconds?_eq_some_iff.1 hs
    rw [secondsAfter_iff hleap]
    exact inRange?_eq_some_iff.1 hd
  · rintro ⟨hafter, hd⟩
    have hseconds := hafter.seconds
    have hlimit : -Span.maxSeconds ≤ n ∧ n ≤ Span.maxSeconds := by
      have hmin : -100000000 ≤ Date.minDay := by decide
      have hmax : Date.maxDay ≤ 100000000 := by decide
      simp only [InRange, Date.InRange, date, secondsPerDay] at hc hd
      simp only [Span.maxSeconds, maxCount]
      omega
    exact ⟨_, Span.ofSeconds?_eq_some_iff.2 ⟨rfl, hlimit⟩,
      inRange?_eq_some_iff.2 ⟨(secondsAfter_iff hleap).1 hafter, hd⟩⟩

end Civil

/-- Away from leap seconds, an instant is reached exactly if it is on the calendar. -/
theorem Instant.bind_add?_eq_some_iff (hi : i.isLeapSecond = false) :
    (Span.ofSeconds? n).bind i.add? = some r ↔ i.utc.SecondsAfter n r.utc := by
  have hadd (s : Span) : i.add? s = some r ↔ i.utc.add? s = some r.utc := by
    rw [add?, Instant.ofUtc?_eq_some_iff, Civil.add?, Civil.inRange?_eq_some_iff]
    exact ⟨fun h => ⟨h, r.inRange⟩, fun h => h.1⟩
  have hcivil := @Civil.bind_add?_eq_some_iff i.utc r.utc n hi i.inRange
  rw [Option.bind_eq_some_iff] at hcivil ⊢
  simp only [hadd, hcivil, r.inRange, and_true]

/-- What is found by its civil time in UTC alone is found exactly if the calendar reaches so
far. -/
theorem orOutOfRange_of_unique {text : List Char} {found : Option Instant}
    (hd : d.isLeapSecond = false) (hfound : ∀ r, found = some r ↔ r.utc = d) :
    if Civil.first ≤ d ∧ d ≤ Civil.last then ∃ r, orOutOfRange text found = .ok r ∧ r.utc = d
    else orOutOfRange text found = .error (.outOfRange (String.ofList text)) := by
  split <;> rename_i hbetween <;> rw [← Civil.inRange_iff_between hd] at hbetween
  · exact ⟨⟨d, hbetween⟩, orOutOfRange_eq_ok_iff.2 ((hfound _).2 rfl), rfl⟩
  · rw [orOutOfRange_eq_error_iff]
    refine ⟨?_, rfl⟩
    rw [Option.eq_none_iff_forall_not_mem]
    intro r hr
    rw [← (hfound r).1 hr] at hbetween
    exact hbetween r.inRange

namespace Period

/-- A civil time so many units after another, where days and what is shorter have one
length, and what is longer is counted in months. -/
def Moves (p : Period) (amount : Int) (c d : Civil) : Prop :=
  match p with
  | second => c.SecondsAfter amount d
  | minute => c.SecondsAfter (amount * 60) d
  | hour => c.SecondsAfter (amount * 3600) d
  | day => c.SecondsAfter (amount * 86400) d
  | week => c.SecondsAfter (amount * 604800) d
  | month => c.MonthsAfter amount d
  | quarter => c.MonthsAfter (amount * 3) d
  | year => c.MonthsAfter (amount * 12) d

/-- The same by the measure of the unit. -/
theorem moves_iff :
    p.Moves amount c d ↔
      match p.measure with
      | .seconds n => c.SecondsAfter (amount * n) d
      | .days n => c.SecondsAfter (amount * n * secondsPerDay) d
      | .months n => c.MonthsAfter (amount * n) d := by
  have hweek : amount * (7 : Nat) * secondsPerDay = amount * 604800 := by
    simp only [secondsPerDay]
    omega
  cases p <;> simp only [Moves, measure, hweek, Int.natCast_one, Int.mul_one] <;> rfl

/-- There is one civil time so many units after another. -/
theorem exists_moves_iff (p : Period) (amount : Int) (c : Civil) :
    ∃ d, ∀ e, p.Moves amount c e ↔ e = d := by
  simp only [moves_iff]
  cases p.measure with
  | seconds n => exact c.exists_secondsAfter_iff _
  | days n => exact c.exists_secondsAfter_iff _
  | months n => exact c.exists_monthsAfter_iff _

/-- A shift keeps the fraction of the second. -/
theorem nanos_of_moves (h : p.Moves amount c d) : d.nanos = c.nanos := by
  rw [moves_iff] at h
  split at h
  · exact h.nanos
  · exact h.nanos
  · exact congrArg TimeOfDay.nanos h.time

/-- What an exact shift of `i` in UTC results in: the instant so many units later if the
calendar reaches so far, and else an error that shows a text. -/
def Exact (p : Period) (amount : Int) (i : Instant) (text : List Char)
    (result : Except EvalError Instant) : Prop :=
  ∃ d, (∀ e, p.Moves amount i.utc e ↔ e = d) ∧
    if Civil.first ≤ d ∧ d ≤ Civil.last then ∃ r, result = .ok r ∧ r.utc = d
    else result = .error (.outOfRange (String.ofList text))

end Period

/-! ## Shifts in UTC -/

section

variable (hz : ∀ unix, z.offsetAt unix = 0)
include hz

/-- What ends at a civil time of the calendar ends at the instant that has it. -/
theorem exists_bind_localize_eq {text : List Char} {o : Option Civil} {q : Civil → Prop}
    (ho : ∀ d, o = some d ↔ q d ∧ d.InRange) :
    ∃ found : Option Instant, orOutOfRange text o >>= z.localize = orOutOfRange text found ∧
      ∀ r, found = some r ↔ q r.utc := by
  cases o with
  | none =>
      refine ⟨none, rfl, ?_⟩
      intro r
      have hnot : ¬ q r.utc := fun hr => by cases (ho r.utc).2 ⟨hr, r.inRange⟩
      simp only [reduceCtorEq, hnot]
  | some d =>
      obtain ⟨hd, hrange⟩ := (ho d).1 rfl
      have hlocal := Zone.localize?_of_offset_zero hz hrange
      refine ⟨some ⟨d, hrange⟩, ?_, ?_⟩
      · simp only [orOutOfRange, bind, Except.bind, Zone.localize, hlocal]
      · intro r
        rw [Option.some.injEq]
        constructor
        · rintro rfl
          exact hd
        · intro hr
          apply Instant.eq_of_utc_eq
          exact Option.some.inj ((ho r.utc).2 ⟨hr, r.inRange⟩)

/-- A shift finds the civil time so many units later exactly if the calendar covers it. -/
theorem exists_shift_eq (hi : i.isLeapSecond = false) (amount : Int) (p : Period) :
    ∃ found : Option Instant,
      shift z i amount p.letter = orOutOfRange (signed amount ++ [p.letter]) found ∧
        ∀ r, found = some r ↔ p.Moves amount i.utc r.utc := by
  simp only [shift_letter (Zone.inRange_civil_of_offset_zero hz i), Zone.civil_of_offset_zero hz,
    Period.moves_iff]
  cases p.measure with
  | seconds n => exact ⟨_, rfl, fun r => Instant.bind_add?_eq_some_iff hi⟩
  | days n =>
      exact exists_bind_localize_eq hz fun d => Civil.bind_add?_eq_some_iff hi i.inRange
  | months n =>
      exact exists_bind_localize_eq hz fun d => Civil.addMonths?_eq_some_iff i.inRange

/-- A shift in UTC is exact. -/
theorem Period.exact_shift (hi : i.isLeapSecond = false) (amount : Int) (p : Period) :
    p.Exact amount i (signed amount ++ [p.letter]) (shift z i amount p.letter) := by
  obtain ⟨d, hd⟩ := p.exists_moves_iff amount i.utc
  obtain ⟨found, hshift, hfound⟩ := exists_shift_eq hz hi amount p
  have hleap : d.isLeapSecond = false := by
    rw [Civil.isLeapSecond_eq_false_iff, nanos_of_moves ((hd d).2 rfl)]
    exact Civil.isLeapSecond_eq_false_iff.1 hi
  refine ⟨d, hd, ?_⟩
  rw [hshift]
  exact orOutOfRange_of_unique hleap fun r => (hfound r).trans (hd r.utc)

/-- With an amount that 64 bits do not hold, the exact result is out of range. -/
theorem Period.exact_of_maxCount_lt (hi : i.isLeapSecond = false)
    (hamount : maxCount < amount.natAbs) (p : Period) (text : List Char) :
    p.Exact amount i text (.error (.outOfRange (String.ofList text))) := by
  obtain ⟨d, hd, hresult⟩ := exact_shift hz hi amount p
  refine ⟨d, hd, ?_⟩
  rw [shift_of_maxCount_lt (Zone.inRange_civil_of_offset_zero hz i) hamount] at hresult
  split at hresult <;> rename_i hbetween
  · obtain ⟨r, hr, -⟩ := hresult
    cases hr
  · rw [if_neg hbetween]

end

end Almanac
