import Almanac.Literal.Value
import Almanac.Proofs.Calendar.Civil
import Almanac.Proofs.Instant.Elapsed
import Almanac.Proofs.IsoDate.Token

/-!
# The value of an ISO date

The evaluator takes the text of an ISO date apart once more, by other means than the
tokenizer: it splits the text after ten bytes, reads each field as a number, and finds
the zone after the last character of the time.  Every written date is read by it field
by field, and has a value exactly if its fields are in range.

Main results:

- Theorem `Literal.digitField_append`: a number is read from its field.
- Theorems `Literal.isoDay?_dayText`, `Literal.clockTime?_text`, `Literal.isoZone?_text`:
  the parts of a written date are read as what they say.
- Theorems `Literal.exists_iso?_text`, `Literal.iso?_text_eq_none`: so is the whole, if
  its fields are in range, and else it is not read at all.
- Theorem `isoDate_format`: the tokenizer and the evaluator have one format.
-/

namespace Almanac

open Text

namespace Literal

variable {width n : Nat} {rest : List Char}

/-! ## Fields -/

/-- A number is read from its field. -/
theorem digitField_append (hwidth : 0 < width) (hn : n < 10 ^ width) (rest : List Char) :
    digitField width (fixedDigits width n ++ rest) = some (n, rest) := by
  have htake : (fixedDigits width n ++ rest).take width = fixedDigits width n := by
    rw [List.take_append_of_le_length (by simp), List.take_of_length_le (by simp)]
  have hne : fixedDigits width n ≠ [] := by
    rw [← List.length_pos_iff, length_fixedDigits]
    exact hwidth
  simp only [digitField, htake, takeWhile_eq_self (isDigit_fixedDigits width n), hne, if_false,
    valueOf_fixedDigits hn, List.drop_left]

/-- Digits have no blanks before them. -/
theorem trimStart_fixedDigits (hwidth : 0 < width) (n : Nat) (rest : List Char) :
    trimStart (fixedDigits width n ++ rest) = fixedDigits width n ++ rest := by
  obtain ⟨c, digits, hcons, hc⟩ := exists_fixedDigits_eq_cons hwidth n
  rw [hcons, List.cons_append, trimStart, List.dropWhile_cons_of_neg]
  simp [not_isBlank_of_isDigit hc]

/-- A field is read up to its width, whatever follows. -/
theorem numericField_append (hwidth : 0 < width) (hn : n < 10 ^ width) (rest : List Char) :
    numericField width (fixedDigits width n ++ rest) = some (n, rest) := by
  rw [numericField, trimStart_fixedDigits hwidth, digitField_append hwidth hn]

/-- A field of two digits is read as its number. -/
theorem twoDigits (field : Fin 100) (rest : List Char) :
    numericField 2 (fixedDigits 2 field ++ rest) = some (field.val, rest) :=
  numericField_append (by decide) field.isLt rest

/-- The field of a year is read as its number. -/
theorem yearField_append (year : Fin 10000) (rest : List Char) :
    yearField (fixedDigits 4 year ++ rest) = some ((year.val : Int), rest) := by
  have hwidth : 0 < 4 := by decide
  obtain ⟨c, digits, hcons, hc⟩ := exists_fixedDigits_eq_cons hwidth year.val
  have hhead : (fixedDigits 4 year.val ++ rest).head? = some c := by
    rw [hcons]
    rfl
  unfold yearField
  rw [trimStart_fixedDigits hwidth]
  split
  · rename_i htext
    rw [htext] at hhead
    cases hhead
    cases hc
  · rename_i htext
    rw [htext] at hhead
    cases hhead
    cases hc
  · rw [digitField_append hwidth year.isLt]
    rfl

/-! ## The parts of a date -/

/-- The text of a date is read as that date, if there is one. -/
theorem isoDay?_dayText (d : IsoDate) :
    isoDay? d.dayText = Date.ofYMD? d.year.val d.month.val d.day.val := by
  have hday := twoDigits d.day []
  rw [List.append_nil] at hday
  simp [isoDay?, IsoDate.dayText, yearField_append, skipChar, twoDigits, hday]

/-- The text of a time is read as that time, if there is one. -/
theorem clockTime?_text (t : IsoTime) :
    clockTime? t.text = TimeOfDay.ofHMS? t.hour.val t.minute.val (t.second.elim 0 Fin.val) := by
  obtain ⟨hour, minute, second⟩ := t
  cases second with
  | none =>
      have hminute := twoDigits minute []
      rw [List.append_nil] at hminute
      simp [clockTime?, IsoTime.text, twoDigits, skipChar, hminute]
  | some second =>
      have hsecond := twoDigits second []
      rw [List.append_nil] at hsecond
      simp [clockTime?, IsoTime.text, twoDigits, skipChar, hsecond]

/-! ## Zones -/

section Offsets

variable (negative : Bool) (hour minute : Fin 100)

/-- Hours after a sign, with what follows them for minutes, are an offset if they are
less than 24 and 60. -/
theorem numericOffset?_sign {digits after : List Char}
    (hdigits : digits.filter (· ≠ ':') = fixedDigits 2 hour ++ after)
    (hafter : ∀ c ∈ after, c.isDigit = true) (hlength : after.length = 0 ∨ after.length = 2) :
    numericOffset? (IsoZone.sign negative :: digits) =
      if hour.val ≤ 23 ∧ valueOf after ≤ 59 then
        some ((if negative then -1 else 1) * (hour.val * 3600 + valueOf after * 60 : Int))
      else none := by
  have hall : (fixedDigits 2 hour.val ++ after).all Char.isDigit = true :=
    List.all_eq_true.2 (List.forall_mem_append.2 ⟨isDigit_fixedDigits 2 _, hafter⟩)
  have hhours : valueOf ((fixedDigits 2 hour.val ++ after).take 2) = hour.val := by
    rw [List.take_left' (length_fixedDigits 2 _), valueOf_fixedDigits hour.isLt]
  have hminutes : (fixedDigits 2 hour.val ++ after).drop 2 = after :=
    List.drop_left' (length_fixedDigits 2 _)
  have hsign : IsoZone.sign negative = '+' ∨ IsoZone.sign negative = '-' := by
    cases negative
    · exact .inl rfl
    · exact .inr rfl
  have htwo : (fixedDigits 2 hour.val ++ after).length = 2 ∨
      (fixedDigits 2 hour.val ++ after).length = 4 := by
    rw [List.length_append, length_fixedDigits]
    omega
  have hday : secondsPerDay = 86400 := rfl
  simp only [numericOffset?, hdigits]
  rw [if_pos ⟨hsign, hall⟩, hhours, hminutes]
  by_cases hrange : hour.val ≤ 23 ∧ valueOf after ≤ 59
  · rw [if_pos hrange, if_pos ⟨htwo, by omega, by omega⟩]
    cases negative <;> simp [IsoZone.sign]
  · rw [if_neg hrange, if_neg]
    rintro ⟨-, hminute, hseconds⟩
    omega

/-- There is no colon among digits. -/
theorem filter_fixedDigits (width n : Nat) :
    (fixedDigits width n).filter (· ≠ ':') = fixedDigits width n := by
  rw [List.filter_eq_self]
  intro c hc
  simpa using ne_of_isDigit (isDigit_fixedDigits width n c hc) (rfl : ':'.isDigit = false)

/-- What begins with a sign is read as an offset. -/
theorem isoZone?_sign (digits : List Char) :
    isoZone? (IsoZone.sign negative :: digits) =
      (numericOffset? (IsoZone.sign negative :: digits)).map some := by
  cases negative <;> rfl

end Offsets

/-- An offset of hours is read as that many hours, up to 23. -/
theorem numericOffset?_hours (negative : Bool) (hour : Fin 100) :
    numericOffset? (IsoZone.sign negative :: fixedDigits 2 hour) =
      if hour.val ≤ 23 then some (IsoZone.hours negative hour).offset else none := by
  have hdigits : (fixedDigits 2 hour.val).filter (· ≠ ':') = fixedDigits 2 hour.val ++ [] := by
    rw [List.append_nil, filter_fixedDigits]
  rw [numericOffset?_sign negative hour hdigits (by simp) (.inl rfl)]
  simp [valueOf, IsoZone.offset]

/-- An offset of hours and minutes is read alike with a colon and without. -/
theorem numericOffset?_hoursMinutes (negative colon : Bool) (hour minute : Fin 100) :
    numericOffset? (IsoZone.hoursMinutes negative colon hour minute).text =
      if hour.val ≤ 23 ∧ minute.val ≤ 59 then
        some (IsoZone.hoursMinutes negative colon hour minute).offset
      else none := by
  have hminute : valueOf (fixedDigits 2 minute.val) = minute.val := valueOf_fixedDigits minute.isLt
  have hafter := isDigit_fixedDigits 2 minute.val
  have hlength := length_fixedDigits 2 minute.val
  have hcompact : (fixedDigits 2 hour.val ++ fixedDigits 2 minute.val).filter (· ≠ ':') =
      fixedDigits 2 hour.val ++ fixedDigits 2 minute.val := by
    rw [List.filter_append, filter_fixedDigits, filter_fixedDigits]
  have hcolon : (fixedDigits 2 hour.val ++ ':' :: fixedDigits 2 minute.val).filter (· ≠ ':') =
      fixedDigits 2 hour.val ++ fixedDigits 2 minute.val := by
    rw [List.filter_append, List.filter_cons_of_neg (by decide), filter_fixedDigits,
      filter_fixedDigits]
  cases colon with
  | true =>
      rw [IsoZone.text, numericOffset?_sign negative hour hcolon hafter (.inr hlength), hminute]
      rfl
  | false =>
      rw [IsoZone.text, numericOffset?_sign negative hour hcompact hafter (.inr hlength), hminute]
      rfl

/-- A zone in range is read as its offset, and no other zone is read. -/
theorem isoZone?_text (z : IsoZone) :
    isoZone? z.text = if z.InRange then some (some z.offset) else none := by
  cases z with
  | utc => rfl
  | hours negative hour =>
      rw [IsoZone.text, isoZone?_sign, numericOffset?_hours]
      by_cases hrange : hour.val ≤ 23 <;> simp [IsoZone.InRange, hrange]
  | hoursMinutes negative colon hour minute =>
      have hsign : isoZone? (IsoZone.hoursMinutes negative colon hour minute).text =
          (numericOffset? (IsoZone.hoursMinutes negative colon hour minute).text).map some := by
        cases colon <;> exact isoZone?_sign negative _
      rw [hsign, numericOffset?_hoursMinutes]
      by_cases hrange : hour.val ≤ 23 ∧ minute.val ≤ 59 <;> simp [IsoZone.InRange, hrange]
  | named name offset known =>
      rw [IsoZone.text, isoZone?, Zone.abbreviationOffset?_eq_some_iff.2 known]
      rfl

/-! ## The whole text -/

/-- A time is written with digits and colons. -/
theorem isClockChar_text (t : IsoTime) : ∀ c ∈ t.text, isClockChar c = true := by
  have hdigits (field : Fin 100) : ∀ c ∈ fixedDigits 2 field.val, isClockChar c = true := by
    intro c hc
    simp [isClockChar, isDigit_fixedDigits 2 _ c hc]
  have hcolon : isClockChar ':' = true := rfl
  have hseconds : ∀ c ∈ t.second.elim [] fun second => ':' :: fixedDigits 2 second,
      isClockChar c = true := by
    cases t.second with
    | none => simp
    | some second => exact List.forall_mem_cons.2 ⟨hcolon, hdigits second⟩
  exact List.forall_mem_append.2 ⟨List.forall_mem_append.2
    ⟨hdigits t.hour, List.forall_mem_cons.2 ⟨hcolon, hdigits t.minute⟩⟩, hseconds⟩

/-- The time of day ends where the zone begins. -/
theorem isoClock?_text (c : IsoClock) :
    isoClock? c.text =
      (clockTime? c.time.text).bind fun time =>
        (isoZone? c.zoneText).map fun zone => (time, zone) := by
  have hchars := isClockChar_text c.time
  have hzone : c.zoneText.head?.any isClockChar = false := by
    cases hhead : c.zoneText.head? with
    | none => rfl
    | some x =>
        have hx := c.head_zoneText x hhead
        simp only [List.mem_cons, List.not_mem_nil, or_false] at hx
        rcases hx with rfl | rfl | rfl | rfl <;> rfl
  have hseparator : c.separator = 'T' ∨ c.separator = ' ' := by
    cases hspaced : c.spaced <;> simp [IsoClock.separator, hspaced]
  rw [IsoClock.text, isoClock?]
  simp only [hseparator, if_true, takeWhile_append_of_head hchars hzone,
    dropWhile_append_of_head hchars hzone]
  cases clockTime? c.time.text with
  | none => rfl
  | some time => cases isoZone? c.zoneText <;> rfl

/-- The date takes up the first ten bytes. -/
theorem splitAtByte_text (d : IsoDate) :
    splitAtByte 10 d.text = some (d.dayText, d.clockText) := by
  have hlength : d.dayText.length = 10 := by
    simp [IsoDate.dayText]
  have hbytes : ∀ c ∈ d.dayText, c.utf8Size = 1 := by
    have hdigits (width n : Nat) : ∀ c ∈ fixedDigits width n, c.utf8Size = 1 :=
      fun c hc => utf8Size_of_isDigit (isDigit_fixedDigits width n c hc)
    have hdash : '-'.utf8Size = 1 := rfl
    exact List.forall_mem_append.2 ⟨List.forall_mem_append.2 ⟨hdigits 4 _,
      List.forall_mem_cons.2 ⟨hdash, hdigits 2 _⟩⟩,
      List.forall_mem_cons.2 ⟨hdash, hdigits 2 _⟩⟩
  rw [← hlength]
  exact splitAtByte_append d.clockText hbytes

/-- What a literal is read as, part by part. -/
theorem iso?_text (d : IsoDate) :
    iso? d.text =
      (Date.ofYMD? d.year.val d.month.val d.day.val).bind fun day =>
        (isoClock? d.clockText).map fun (time, zone) => (day.at time, zone) := by
  simp only [iso?, splitAtByte_text, Option.bind_eq_bind, Option.bind_some, isoDay?_dayText]
  cases Date.ofYMD? d.year.val d.month.val d.day.val with
  | none => rfl
  | some day => cases isoClock? d.clockText <;> rfl

section Range

variable {d : IsoDate}

/-- What follows the day is read as the time and the offset that it says. -/
theorem exists_isoClock?_clockText (h : d.InRange) :
    ∃ t, isoClock? d.clockText = some (t, d.offset?) ∧ t.hour = d.hour ∧ t.minute = d.minute ∧
      t.second = min d.second 59 ∧ t.nanos = if d.second = 60 then nanosPerSecond else 0 := by
  obtain ⟨year, month, day, clock⟩ := d
  cases clock with
  | none => exact ⟨.midnight, rfl, rfl, rfl, rfl, rfl⟩
  | some clock =>
      have htime := h.time clock rfl
      have hsecond : clock.time.second.elim 0 Fin.val ≤ 60 := by
        cases hwritten : clock.time.second with
        | none => exact Nat.zero_le 60
        | some second => exact htime.second second hwritten
      have hzone : isoZone? clock.zoneText = some (clock.zone.map IsoZone.offset) := by
        rw [IsoClock.zoneText]
        cases hwritten : clock.zone with
        | none => rfl
        | some zone => exact (isoZone?_text zone).trans (if_pos (h.zone clock rfl zone hwritten))
      obtain ⟨t, ht, hparts⟩ := TimeOfDay.exists_ofHMS? htime.hour htime.minute hsecond
      refine ⟨t, ?_, hparts⟩
      rw [IsoDate.clockText, Option.elim_some, isoClock?_text, clockTime?_text, ht, hzone]
      rfl

/-- A time or a zone out of range is not read. -/
theorem isoClock?_text_eq_none {clock : IsoClock}
    (h : ¬ (clock.time.InRange ∧ ∀ zone ∈ clock.zone, zone.InRange)) :
    isoClock? clock.text = none := by
  rw [isoClock?_text, clockTime?_text]
  by_cases htime : clock.time.InRange
  · have hzone : isoZone? clock.zoneText = none := by
      rw [IsoClock.zoneText]
      cases hwritten : clock.zone with
      | none => simp [htime, hwritten] at h
      | some zone =>
          have hzone : ¬ zone.InRange := by simpa [htime, hwritten] using h
          exact (isoZone?_text zone).trans (if_neg hzone)
    rw [hzone]
    simp
  · rw [TimeOfDay.ofHMS?_eq_none]
    · rfl
    · rintro ⟨hhour, hminute, hsecond⟩
      refine htime ⟨hhour, hminute, ?_⟩
      intro second hwritten
      rw [Option.mem_def.1 hwritten] at hsecond
      exact hsecond

/-- A date in range is read as the civil time that it is about. -/
theorem exists_iso?_text (h : d.InRange) :
    ∃ c, d.Shows c ∧ iso? d.text = some (c, d.offset?) := by
  obtain ⟨hpos, hle⟩ := h.day
  have hyear := d.year.isLt
  have hday := (@Date.ofYMD?_eq_some_iff d.year.val d.month.val d.day.val _).2
    ⟨⟨by simp only [Date.minYear]; omega, by simp only [Date.maxYear]; omega, hpos, hle⟩, rfl⟩
  obtain ⟨t, ht, hhour, hminute, hsecond, hnanos⟩ := exists_isoClock?_clockText h
  refine ⟨_, ?_, by rw [iso?_text, hday, ht]; rfl⟩
  constructor <;> simp only [Civil.date_at, Civil.time_at, Civil.nanos_at]
  · exact Date.year_ofYMD hpos hle
  · exact Date.month_ofYMD hpos hle
  · exact Date.day_ofYMD hpos hle
  · exact hhour
  · exact hminute
  · exact hsecond
  · exact hnanos

/-- A date out of range is not read. -/
theorem iso?_text_eq_none (h : ¬ d.InRange) : iso? d.text = none := by
  rw [iso?_text]
  by_cases hday : 1 ≤ d.day.val ∧ d.day.val ≤ daysInMonth d.year.val d.month.val
  · have hle := hday.2
    rw [daysInMonth_eq] at hle
    obtain ⟨hfirst, hlast, -⟩ := month_bounds hday.1 hle
    have hclock : isoClock? d.clockText = none := by
      rw [IsoDate.clockText]
      cases hwritten : d.clock with
      | none =>
          refine absurd ⟨⟨hfirst, Nat.le_of_lt_succ hlast⟩, hday, ?_, ?_⟩ h <;> simp [hwritten]
      | some clock =>
          apply isoClock?_text_eq_none
          rintro ⟨htime, hzone⟩
          refine h ⟨⟨hfirst, Nat.le_of_lt_succ hlast⟩, hday, ?_, ?_⟩ <;> simpa [hwritten]
    rw [hclock]
    simp
  · rw [Date.ofYMD?, if_neg fun hfields => hday hfields.2.2]
    rfl

end Range

/-- An ISO date is no time of day: its year goes on after two digits. -/
theorem clockTime?_dateText (d : IsoDate) : clockTime? d.text = none := by
  have hdigits := isDigit_fixedDigits 4 d.year.val
  have hlength := length_fixedDigits 4 d.year.val
  rw [IsoDate.text, IsoDate.dayText]
  obtain ⟨first, second, third, fourth, hyear⟩ := List.length_eq_four.1 hlength
  rw [hyear] at hdigits ⊢
  have hfirst := hdigits first (by simp)
  have hsecond := hdigits second (by simp)
  have hcolon : third ≠ ':' := ne_of_isDigit (hdigits third (by simp)) rfl
  simp [clockTime?, numericField, trimStart, not_isBlank_of_isDigit hfirst, digitField,
    hfirst, hsecond, skipChar, hcolon]

end Literal

/-! ## Values -/

/-- A text that does not begin with a letter is no name. -/
theorem ofList_toLower_ne {cs : List Char} (hcs : cs.head?.any Char.isAlpha = false)
    {name : String} (hname : name.toList.head?.any Char.isAlpha = true) :
    String.ofList (cs.map Char.toLower) ≠ name := by
  rintro rfl
  rw [String.toList_ofList] at hname
  cases cs with
  | nil => cases hname
  | cons c cs =>
      have hc : c.isAlpha = false := hcs
      have hlower : c.toLower = c := by
        apply Char.toLower_eq_of_not_isUpper
        intro hupper
        rw [Char.isAlpha, hupper] at hc
        cases hc
      rw [List.map_cons, hlower, List.head?_cons, Option.any_some, hc] at hname
      cases hname

/-- A text that does not begin with a letter is a quantity or a date in digits. -/
theorem valueOn_of_head (ctx : Context) (today : Date) {text : String}
    (h : text.toList.head?.any Char.isAlpha = false) :
    valueOn ctx today text =
      if isQuantity text.toList then shiftBy ctx.zone ctx.now text.toList
      else numeralValue ctx today text := by
  have hname (name : String) (hname : name.toList.head?.any Char.isAlpha = true) :=
    ofList_toLower_ne h hname
  have hnamed : namedDay? (String.ofList (text.toList.map Char.toLower)) = none := by
    simp only [namedDay?, List.lookup_cons, beq_false_of_ne (hname "today" rfl),
      beq_false_of_ne (hname "yesterday" rfl), beq_false_of_ne (hname "tomorrow" rfl),
      List.lookup_nil]
  have hweekday : Weekday.ofName? (String.ofList (text.toList.map Char.toLower)) = none := by
    rw [Weekday.ofName?, List.find?_eq_none]
    intro w hw
    have hw : String.ofList (w.name.toList.map Char.toLower) ≠
        String.ofList (text.toList.map Char.toLower) := by
      apply Ne.symm
      apply hname
      cases w <;> rfl
    simpa using hw
  simp only [valueOn, hname "now" rfl, if_false, hnamed, hweekday]

namespace IsoDate

variable {d : IsoDate}

/-- An ISO date is no quantity: its year is followed by a dash. -/
theorem isQuantity_text (d : IsoDate) : isQuantity d.text = false := by
  have hdash (rest : List Char) : ('-' :: rest).head?.any Char.isDigit = false := rfl
  have hrest : d.text.dropWhile Char.isDigit = '-' :: (fixedDigits 2 d.month.val ++
      '-' :: fixedDigits 2 d.day.val ++ d.clockText) := by
    have hyear := dropWhile_append_of_head (isDigit_fixedDigits 4 d.year.val) (hdash
      (fixedDigits 2 d.month.val ++ '-' :: fixedDigits 2 d.day.val ++ d.clockText))
    rw [← hyear, text, dayText]
    simp
  obtain ⟨c, rest, htext, hc⟩ := d.exists_text_eq_cons
  have hplus : c ≠ '+' := ne_of_isDigit hc rfl
  have hminus : c ≠ '-' := ne_of_isDigit hc rfl
  have hunsigned : isUnsignedQuantity d.text = false := by
    rw [isUnsignedQuantity, hrest]
    simp
  rw [isQuantity, hunsigned, htext]
  simp [hplus, hminus]

/-- An ISO date is read as a date in digits, and neither as a name nor as a quantity. -/
theorem valueOn_source (ctx : Context) (today : Date) (d : IsoDate) :
    valueOn ctx today d.source = numeralValue ctx today d.source := by
  obtain ⟨c, rest, htext, hc⟩ := d.exists_text_eq_cons
  have hhead : d.source.toList.head?.any Char.isAlpha = false := by
    rw [toList_source, htext]
    exact isAlpha_of_isDigit hc
  rw [valueOn_of_head ctx today hhead, toList_source, isQuantity_text, if_neg Bool.false_ne_true]

/-- An ISO date is about one civil time. -/
theorem Shows.unique {c c' : Civil} (h : d.Shows c) (h' : d.Shows c') : c = c' := by
  have hdate : c.date = c'.date := by
    rw [← c.date.ofYMD_parts, h.year, h.month, h.day, ← h'.year, ← h'.month, ← h'.day,
      Date.ofYMD_parts]
  have htime : c.time = c'.time :=
    TimeOfDay.eq_of_parts (h.hour.trans h'.hour.symm) (h.minute.trans h'.minute.symm)
      (h.second.trans h'.second.symm) (h.nanos.trans h'.nanos.symm)
  rw [← c.at_date_time, hdate, htime, Civil.at_date_time]

/-- The civil time of an ISO date stays in the calendar when the offset is taken off. -/
theorem inRange_of_shows {c : Civil} (h : d.Shows c) {offset : Int}
    (hoffset : -86400 < offset ∧ offset < 86400) :
    Civil.InRange { c with seconds := c.seconds - offset } := by
  have hyear := d.year.isLt
  have hbounds := yearOfDay_bounds c.date.dayNumber
  have hshown : yearOfDay c.date.dayNumber = d.year.val := h.year
  rw [hshown] at hbounds
  have hfirst := daysBeforeYear_le (show (0 : Int) ≤ d.year.val by omega)
  have hlast := daysBeforeYear_le (show (d.year.val : Int) + 1 ≤ 10000 by omega)
  have hmin : Date.minDay + 1 ≤ daysBeforeYear 0 := by decide
  have hmax : daysBeforeYear 10000 ≤ Date.maxDay := by decide
  simp only [Civil.InRange, Date.InRange, Civil.date, secondsPerDay] at hbounds ⊢
  omega

/-- An offset whose fields are in range is less than a day. -/
theorem offset_bounds (h : d.InRange) {offset : Int} (hoffset : d.offset? = some offset) :
    -86400 < offset ∧ offset < 86400 := by
  obtain ⟨zone, hzone, rfl⟩ := Option.map_eq_some_iff.1 hoffset
  obtain ⟨clock, hclock, hzone⟩ := Option.bind_eq_some_iff.1 hzone
  have hrange := h.zone clock hclock zone hzone
  cases zone with
  | utc => decide
  | hours negative hour =>
      have hhour : hour.val ≤ 23 := hrange
      simp only [IsoZone.offset]
      split <;> omega
  | hoursMinutes negative colon hour minute =>
      obtain ⟨hhour, hminute⟩ : hour.val ≤ 23 ∧ minute.val ≤ 59 := hrange
      simp only [IsoZone.offset]
      split <;> omega
  | named name offset known => exact Zone.offset_bounds known

/-- No zone finds a civil time badly written. -/
theorem localize_ne_invalidDateValue (z : Zone) (c : Civil) (text : String) :
    z.localize c ≠ .error (.invalidDateValue text) := by
  rw [Zone.localize]
  cases z.localize? c <;> simp [orOutOfRange]

section Values

variable {ctx : Context} (htoday : ctx.HasToday)
include htoday

/-- The value of an ISO date is its civil time in the zone of the context, or less the
offset that is written. -/
theorem dateValue_of_inRange (h : d.InRange) :
    ∃ c, d.Shows c ∧
      (d.offset? = none → dateValue ctx d.source = ctx.zone.localize c) ∧
      ∀ offset, d.offset? = some offset →
        ∃ i, dateValue ctx d.source = .ok i ∧ i.utc = { c with seconds := c.seconds - offset } := by
  obtain ⟨c, hshows, hiso⟩ := Literal.exists_iso?_text h
  have hvalue : dateValue ctx d.source = isoValue ctx d.source c d.offset? := by
    rw [dateValue_of_hasToday htoday, valueOn_source, numeralValue, toList_source, hiso]
  refine ⟨c, hshows, ?_, ?_⟩
  · intro hoffset
    rw [hvalue, hoffset]
    rfl
  · intro offset hoffset
    have hrange := inRange_of_shows hshows (offset_bounds h hoffset)
    rw [hvalue, hoffset]
    exact ⟨⟨_, hrange⟩, by simp [isoValue, Instant.ofUtc?, hrange], rfl⟩

/-- An ISO date is badly written exactly if a field is out of range. -/
theorem dateValue_eq_error_iff (d : IsoDate) :
    dateValue ctx d.source = .error (.invalidDateValue d.source) ↔ ¬ d.InRange := by
  constructor
  · intro herror hrange
    obtain ⟨c, -, hlocal, hutc⟩ := dateValue_of_inRange htoday hrange
    rw [herror] at hlocal hutc
    cases hoffset : d.offset? with
    | none => exact localize_ne_invalidDateValue _ _ _ (hlocal hoffset).symm
    | some offset =>
        obtain ⟨i, hi, -⟩ := hutc offset hoffset
        cases hi
  · intro hrange
    rw [dateValue_of_hasToday htoday, valueOn_source, numeralValue, toList_source,
      Literal.iso?_text_eq_none hrange, Literal.clockTime?_dateText]

end Values

end IsoDate

/-! ## One format -/

/-- The tokenizer and the evaluator have one format.  A written date is one token, and
every token of a date that begins with a digit is a written date.  Where it can be said which day
is today, its value is an error exactly if one of its fields is out of range; else it is the civil
time that is written, less the offset if there is one, and in the zone of the context if there is
none. -/
theorem isoDate_format :
    (∀ d : IsoDate, tokenize d.source = .ok
      [{ kind := .date, text := d.source, pos := 0 },
        { kind := .eof, text := "", pos := byteLength d.text }]) ∧
    (∀ source tokens t, tokenize source = .ok tokens → t ∈ tokens → t.kind = .date →
      t.text.toList.head?.any Char.isDigit = true → ∃ d : IsoDate, t.text = d.source) ∧
    ∀ (d : IsoDate) (ctx : Context), ctx.HasToday →
      (dateValue ctx d.source = .error (.invalidDateValue d.source) ↔ ¬ d.InRange) ∧
      (d.InRange → ∃ c, d.Shows c ∧
        (d.offset? = none → dateValue ctx d.source = ctx.zone.localize c) ∧
        ∀ offset, d.offset? = some offset →
          ∃ i, dateValue ctx d.source = .ok i ∧
            i.utc = { c with seconds := c.seconds - offset }) :=
  ⟨tokenize_isoDate, fun _ _ _ => exists_isoDate_of_mem, fun d _ htoday =>
    ⟨IsoDate.dateValue_eq_error_iff htoday d, IsoDate.dateValue_of_inRange htoday⟩⟩

/-- The leap second at the end of 2016. -/
def leapDate : IsoDate :=
  ⟨2016, 12, 31, some ⟨false, ⟨23, 59, some 60⟩, some .utc⟩⟩

/-- A day of the thirteenth month. -/
def thirteenth : IsoDate :=
  ⟨2016, 13, 1, none⟩

/-- The leap second at the end of 2016, as the notation has it. -/
theorem isoDate_format_leapDate :
    (∃ d : IsoDate, "2016-12-31T23:59:60Z" = d.source) ∧
    (∃ i, dateValue { now := .epoch, zone := .zero } "2016-12-31T23:59:60Z" = .ok i ∧
      i.utc = { seconds := 1483228799, nanos := 1000000000 }) ∧
    dateValue { now := .epoch, zone := .zero } "2016-13-01" =
      .error (.invalidDateValue "2016-13-01") := by
  obtain ⟨htokens, hread, hvalue⟩ := isoDate_format
  have hsource : leapDate.source = "2016-12-31T23:59:60Z" := by decide
  have hinvalid : thirteenth.source = "2016-13-01" := by decide
  have htoday : Context.HasToday { now := .epoch, zone := .zero } := by decide
  rw [← hsource, ← hinvalid]
  refine ⟨?_, ?_, ?_⟩
  · exact hread _ _ _ (htokens leapDate) (List.mem_cons_self ..) rfl (by decide)
  · have hrange : leapDate.InRange := by
      refine ⟨by decide, by decide, ?_, ?_⟩
      · rintro clock ⟨⟩
        refine ⟨by decide, by decide, ?_⟩
        rintro second ⟨⟩
        decide
      · rintro clock ⟨⟩ zone ⟨⟩
        exact trivial
    have hshown : leapDate.Shows { seconds := 1483228799, nanos := 1000000000 } := by
      constructor <;> decide
    obtain ⟨c, hc, -, hinstant⟩ := (hvalue leapDate _ htoday).2 hrange
    obtain ⟨i, hi, hutc⟩ := hinstant 0 rfl
    rw [hc.unique hshown] at hutc
    exact ⟨i, hi, hutc⟩
  · rw [(hvalue thirteenth _ htoday).1]
    exact fun h => absurd h.month.2 (by decide)

end Almanac
