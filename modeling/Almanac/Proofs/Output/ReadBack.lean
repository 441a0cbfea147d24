import Almanac.Output.Format
import Almanac.Proofs.Calendar.MonthShift
import Almanac.Proofs.IsoDate.Value
import Almanac.Proofs.Zone.Localize
import Almanac.Query

/-!
# Reading written instants back

What is written of an instant in the notation of RFC 3339, or as date and time of day, is an ISO
date, and as that it is read back: the first as the instant, the second as the first instant
that a clock shows so.  The fraction of the second is not written.  Nor is it written of a leap
second which second it follows, so that it is read back only if that is the last of a minute;
any other is read as the second after it.

Main definitions:

- `Civil.written`: what is left of a civil time when it is written.
- `Civil.isoDate`: the ISO date that a civil time is written as.

Main results:

- Theorems `Civil.text_isoDate`, `Civil.shows_isoDate`: how that is written, and what it shows.
- Theorem `evaluateText_isoDate`: the value of the text of an ISO date.
- Theorem `evaluateText_render`: written instants are read back.
-/

namespace Almanac

open Text

variable {c : Civil} {z : Zone} {i : Instant}

/-! ## What is written -/

namespace Civil

/-- Whether a civil time lies within a leap second that is not the last of a minute. -/
def OffMinute (c : Civil) : Prop :=
  c.isLeapSecond = true ∧ c.time.second ≠ 59

instance (c : Civil) : Decidable c.OffMinute :=
  inferInstanceAs (Decidable (_ ∧ _))

/-- What is left of a civil time when it is written: the second that it lies in, a leap second
or not, without the fraction.  Of a leap second that is not the last of a minute the second
after it is written. -/
def written (c : Civil) : Civil :=
  if c.OffMinute then
    { seconds := c.seconds + 1
      nanos := 0
      nanos_lt := TimeOfDay.midnight.nanos_lt }
  else
    { seconds := c.seconds
      nanos := c.nanos / nanosPerSecond * nanosPerSecond
      nanos_lt := by
        have hnanos := c.nanos_lt
        simp only [nanosPerSecond] at *
        omega }

/-- A clock that is whole minutes ahead shows the same second. -/
theorem written_add_minutes (c : Civil) {n : Int} (hn : n % 60 = 0) :
    ({ c with seconds := c.seconds + n } : Civil).written =
      { c.written with seconds := c.written.seconds + n } := by
  have hsecond : ({ c with seconds := c.seconds + n } : Civil).time.second = c.time.second := by
    simp only [time, TimeOfDay.second, secondsPerDay]
    omega
  have hoff : ({ c with seconds := c.seconds + n } : Civil).OffMinute ↔ c.OffMinute := by
    simp only [OffMinute, hsecond, isLeapSecond]
  unfold written
  by_cases h : c.OffMinute
  · rw [if_pos h, if_pos (hoff.2 h)]
    ext
    · simp only
      omega
    · rfl
  · rw [if_neg h, if_neg (mt hoff.1 h)]

/-- A reading is written as it is, but for leap seconds off the minute boundary. -/
theorem seconds_written_of_not_offMinute (h : ¬ c.OffMinute) : c.written.seconds = c.seconds := by
  rw [written, if_neg h]

/-- Civil times in the same minute have the same date, hour and minute. -/
theorem parts_of_minute {a b : Civil} (h : a.seconds / 60 = b.seconds / 60) :
    a.date = b.date ∧ a.time.hour = b.time.hour ∧ a.time.minute = b.time.minute := by
  have hday : a.seconds / 86400 = b.seconds / 86400 := by omega
  refine ⟨congrArg Date.mk hday, ?_, ?_⟩
  · simp only [time, TimeOfDay.hour, secondsPerDay]
    omega
  · simp only [time, TimeOfDay.minute, secondsPerDay]
    omega

/-- The second of a time is that of the reading. -/
theorem second_time (c : Civil) : (c.time.second : Int) = c.seconds % 60 := by
  simp only [time, TimeOfDay.second, secondsPerDay]
  omega

/-- Within a leap second, the second that is shown is one more. -/
theorem shownSecond_time (c : Civil) :
    c.time.shownSecond = c.time.second + if c.isLeapSecond then 1 else 0 := by
  have hnanos := c.nanos_lt
  have hleap := @isLeapSecond_eq_true_iff c
  rw [TimeOfDay.shownSecond]
  by_cases h : c.isLeapSecond = true
  · rw [if_pos h]
    rw [hleap] at h
    simp only [time, nanosPerSecond] at *
    omega
  · rw [if_neg h]
    rw [hleap] at h
    simp only [time, nanosPerSecond] at *
    omega

/-- What is written lies in the minute of a civil time, in the second that is shown. -/
theorem written_parts (c : Civil) :
    c.written.seconds / 60 = c.seconds / 60 ∧
      c.written.time.second = min c.time.shownSecond 59 ∧
      c.written.nanos = if c.time.shownSecond = 60 then nanosPerSecond else 0 := by
  have hnanos := c.nanos_lt
  have hleap := @isLeapSecond_eq_true_iff c
  have hsecond := c.second_time
  have hshown := c.shownSecond_time
  have hwritten := c.written.second_time
  by_cases h : c.OffMinute
  · have hlast := h.2
    rw [if_pos h.1] at hshown
    rw [written, if_pos h] at hwritten ⊢
    simp only at hwritten
    exact ⟨by simp only; omega, by omega, by rw [if_neg (by omega)]⟩
  · rw [written, if_neg h] at hwritten ⊢
    simp only at hwritten
    rw [OffMinute, not_and, not_not] at h
    by_cases hnext : c.isLeapSecond = true
    · have hlast := h hnext
      rw [if_pos hnext] at hshown
      rw [hleap] at hnext
      refine ⟨rfl, by omega, ?_⟩
      rw [if_pos (by omega)]
      simp only [nanosPerSecond] at *
      omega
    · rw [if_neg hnext] at hshown
      rw [hleap] at hnext
      refine ⟨rfl, by omega, ?_⟩
      rw [if_neg (by omega)]
      simp only [nanosPerSecond] at *
      omega

end Civil

/-! ## The ISO date that is written -/

/-- A number that is not too long is written with its width in digits. -/
theorem padded_eq_fixedDigits {width n : Nat} (h : n < 10 ^ width) :
    padded width n = fixedDigits width n :=
  if_pos h

/-- What is shown of a time is in the ranges of the notation. -/
theorem TimeOfDay.bounds (t : TimeOfDay) :
    t.hour ≤ 23 ∧ t.minute ≤ 59 ∧ t.shownSecond ≤ 60 := by
  have hseconds := t.seconds_lt
  have hnanos := t.nanos_lt
  simp only [hour, minute, second, shownSecond, secondsPerDay, nanosPerSecond] at *
  omega

theorem Date.bounds (d : Date) : d.month ≤ 12 ∧ d.day ≤ 31 := by
  have hday := d.day_le
  have hlength := monthLength_bounds d.monthNumber
  exact ⟨d.month_mem.2, by omega⟩

/-- The time of day as it is written. -/
def TimeOfDay.isoTime (t : TimeOfDay) : IsoTime where
  hour := ⟨t.hour, by have := t.bounds; omega⟩
  minute := ⟨t.minute, by have := t.bounds; omega⟩
  second := some ⟨t.shownSecond, by have := t.bounds; omega⟩

/-- A time is written as the notation has it. -/
theorem TimeOfDay.text_isoTime (t : TimeOfDay) : t.isoTime.text = t.clockText := by
  obtain ⟨hhour, hminute, hsecond⟩ := t.bounds
  rw [clockText, padded_eq_fixedDigits (by omega), padded_eq_fixedDigits (by omega),
    padded_eq_fixedDigits (by omega), IsoTime.text, isoTime, Option.elim_some,
    List.append_assoc, List.cons_append]

namespace Civil

/-- The ISO date that a civil time is written as, after a `T` or a space. -/
def isoDate (c : Civil) (hyear : 0 ≤ c.date.year ∧ c.date.year ≤ 9999) (spaced : Bool)
    (zone : Option IsoZone) : IsoDate where
  year := ⟨c.date.year.toNat, by omega⟩
  month := ⟨c.date.month, by have := c.date.bounds; omega⟩
  day := ⟨c.date.day, by have := c.date.bounds; omega⟩
  clock := some { spaced := spaced, time := c.time.isoTime, zone := zone }

variable (hyear : 0 ≤ c.date.year ∧ c.date.year ≤ 9999) (spaced : Bool) (zone : Option IsoZone)

/-- A reading is written as the notation has it. -/
theorem text_isoDate :
    (c.isoDate hyear spaced zone).text =
      c.date.text ++ (if spaced then ' ' else 'T') :: (c.time.clockText ++
        zone.elim [] IsoZone.text) := by
  obtain ⟨hmonth, hday⟩ := c.date.bounds
  rw [Date.text, yearText, if_pos hyear, padded_eq_fixedDigits (by omega),
    padded_eq_fixedDigits (by omega), padded_eq_fixedDigits (by omega), ← c.time.text_isoTime]
  rfl

/-- The fields of what is written are in range. -/
theorem inRange_isoDate (hzone : ∀ z ∈ zone, z.InRange) :
    (c.isoDate hyear spaced zone).InRange := by
  obtain ⟨hhour, hminute, hsecond⟩ := c.time.bounds
  have hday := c.date.day_le
  rw [← Date.daysInMonth_eq_monthLength] at hday
  refine ⟨c.date.month_mem, ⟨c.date.one_le_day, ?_⟩, ?_, ?_⟩
  · rw [isoDate]
    simp only [Int.toNat_of_nonneg hyear.1]
    exact hday
  · rintro clock ⟨⟩
    refine ⟨hhour, hminute, ?_⟩
    rintro second ⟨⟩
    exact hsecond
  · rintro clock ⟨⟩
    exact hzone

/-- What is written shows what is left of the civil time. -/
theorem shows_isoDate : (c.isoDate hyear spaced zone).Shows c.written := by
  obtain ⟨hminute, hsecond, hnanos⟩ := c.written_parts
  obtain ⟨hdate, hhour, hminute⟩ := parts_of_minute hminute
  constructor
  · rw [hdate]
    exact (Int.toNat_of_nonneg hyear.1).symm
  · rw [hdate]
    rfl
  · rw [hdate]
    rfl
  · exact hhour
  · exact hminute
  · exact hsecond
  · exact hnanos

end Civil

namespace IsoZone

variable {offset : Int}

/-- An offset of whole minutes as it is written. -/
def ofMinutes (offset : Int) (h : -86400 < offset ∧ offset < 86400) : IsoZone :=
  if offset = 0 then .utc
  else
    .hoursMinutes (decide (offset < 0)) true ⟨offset.natAbs / 3600, by omega⟩
      ⟨offset.natAbs / 60 % 60, by omega⟩

variable (h : -86400 < offset ∧ offset < 86400)

/-- The fields of an offset are in the ranges of the notation. -/
theorem inRange_ofMinutes : (ofMinutes offset h).InRange := by
  unfold ofMinutes
  split
  · exact trivial
  · exact ⟨by simp only; omega, by simp only; omega⟩

/-- An offset of whole minutes is read back. -/
theorem offset_ofMinutes (hminutes : offset % 60 = 0) : (ofMinutes offset h).offset = offset := by
  unfold ofMinutes
  split <;> rename_i hzero
  · exact hzero.symm
  · simp only [IsoZone.offset, decide_eq_true_eq]
    split <;> omega

/-- An offset of whole minutes is written as the notation has it. -/
theorem text_ofMinutes (hminutes : offset % 60 = 0) :
    (ofMinutes offset h).text =
      if offset = 0 then ['Z'] else OffsetStyle.minutes.write offset := by
  have hrounded : (offset.natAbs + 30) / 60 = offset.natAbs / 60 := by omega
  have hhour : offset.natAbs / 60 / 60 = offset.natAbs / 3600 := by omega
  unfold ofMinutes
  split
  · rfl
  · simp only [OffsetStyle.write, hrounded, hhour]
    rw [padded_eq_fixedDigits (by omega), padded_eq_fixedDigits (by omega), text, sign]
    simp

end IsoZone

/-! ## Expressions -/

/-- The text of an ISO date is the expression of a date. -/
theorem parse_isoDate (d : IsoDate) : parse d.source = .ok (.date d.source) := by
  have htokens := tokenize_isoDate d
  rw [tokenize] at htokens
  rw [parse, parseChars, htokens]
  simp [parseTokens, beforeEof, Expr.read, expression, primary, rangeTail, operations,
    Parsed.andThen, Parsed.map, Expr.piped]

/-- The value of the text of an ISO date is that of the date. -/
theorem evaluateText_isoDate (ctx : Context) (d : IsoDate) :
    evaluateText ctx d.source = (dateValue ctx d.source).mapError .eval := by
  simp only [evaluateText, parse_isoDate, Except.mapError, bind, Except.bind, evaluate]

/-! ## Reading back -/

/-- A number below a hundred is written in two digits. -/
theorem twoDigits_eq_padded : ∀ n < 100, twoDigits .zero n = padded 2 n := by
  decide +kernel

/-- A year of four digits is written as in a date. -/
theorem yearNumber_eq_yearText {year : Int} (h : 0 ≤ year ∧ year ≤ 9999) :
    yearNumber .zero year = yearText year := by
  have hsign : ¬ year < 0 := by omega
  rw [yearNumber, if_pos h, yearText, if_pos h, numberText, if_neg hsign]
  simp [show year.natAbs = year.toNat by omega]

/-- The calendar covers the civil times of years with four digits. -/
theorem inRange_of_year (hyear : 0 ≤ c.date.year ∧ c.date.year ≤ 9999) : c.InRange := by
  rw [Civil.InRange, Date.inRange_iff_year, Date.minYear, Date.maxYear]
  omega

/-- An instant in the notation of RFC 3339 is written as an ISO date, if clocks are whole
minutes ahead. -/
theorem render_iso (hyear : 0 ≤ (z.civil i).date.year ∧ (z.civil i).date.year ≤ 9999)
    (hminutes : z.offsetAt i.unix % 60 = 0) :
    OutputFormat.iso.render z i = .ok ((z.civil i).isoDate hyear false
      (some (.ofMinutes (z.offsetAt i.unix) (z.offsetAt_bounds i.unix)))).text := by
  have hwrite : OutputFormat.iso.render z i = .ok (rfc3339 false (z.reading i)) :=
    if_pos (inRange_of_year hyear)
  rw [hwrite, Civil.text_isoDate, Option.elim_some, IsoZone.text_ofMinutes _ hminutes]
  simp only [rfc3339, dateTimeText, List.append_assoc, List.cons_append, Bool.false_eq_true,
    if_false]
  rfl

/-- Date and time of day of an instant are written as an ISO date. -/
theorem render_sql (hyear : 0 ≤ (z.civil i).date.year ∧ (z.civil i).date.year ≤ 9999) :
    OutputFormat.sql.render z i = .ok ((z.civil i).isoDate hyear true none).text := by
  obtain ⟨hmonth, hday⟩ := (z.civil i).date.bounds
  obtain ⟨hhour, hminute, hsecond⟩ := (z.civil i).time.bounds
  have hwritten : writeItems? (z.reading i) OutputFormat.sqlItems =
      some ((z.civil i).isoDate hyear true none).text := by
    rw [Civil.text_isoDate, Date.text, TimeOfDay.clockText, ← yearNumber_eq_yearText hyear,
      ← twoDigits_eq_padded _ (by omega), ← twoDigits_eq_padded _ (by omega),
      ← twoDigits_eq_padded _ (by omega), ← twoDigits_eq_padded _ (by omega),
      ← twoDigits_eq_padded _ (by omega)]
    simp [OutputFormat.sqlItems, clockItems, writeItems?, Item.write?, NumericItem.write,
      Zone.reading, Reading.date, Reading.time]
  simp only [OutputFormat.render, OutputFormat.write, hwritten, orUnwritable]

section

variable (hyear : 0 ≤ c.date.year ∧ c.date.year ≤ 9999) (spaced : Bool) {ctx : Context}
  (htoday : ctx.HasToday)
include htoday

/-- Without a zone, what is written is what the zone of the context means by it. -/
theorem evaluateText_local :
    evaluateText ctx (c.isoDate hyear spaced none).source =
      (ctx.zone.localize c.written).mapError .eval := by
  have hrange := Civil.inRange_isoDate hyear spaced none (by simp)
  obtain ⟨shown, hshown, hlocal, -⟩ := IsoDate.dateValue_of_inRange htoday hrange
  rw [hshown.unique (Civil.shows_isoDate hyear spaced none)] at hlocal
  rw [evaluateText_isoDate, hlocal rfl]

/-- With a zone, what is written is what the clocks of that zone show. -/
theorem exists_evaluateText_zoned {zone : IsoZone} (hzone : zone.InRange) :
    ∃ r, evaluateText ctx (c.isoDate hyear spaced (some zone)).source = .ok r ∧
      r.utc = { c.written with seconds := c.written.seconds - zone.offset } := by
  have hrange := Civil.inRange_isoDate hyear spaced (some zone) (by simpa using hzone)
  obtain ⟨shown, hshown, -, hzoned⟩ := IsoDate.dateValue_of_inRange htoday hrange
  rw [hshown.unique (Civil.shows_isoDate hyear spaced (some zone))] at hzoned
  obtain ⟨r, hr, hutc⟩ := hzoned zone.offset rfl
  refine ⟨r, ?_, hutc⟩
  rw [evaluateText_isoDate, hr]
  rfl

end

/-- A zone finds an instant that shows what is written of another, unless that is a leap second
which is not the last of a minute. -/
theorem Zone.exists_earliest?_written
    (hyear : 0 ≤ (z.civil i).date.year ∧ (z.civil i).date.year ≤ 9999)
    (hminute : ¬ (z.civil i).OffMinute) : ∃ r, z.earliest? (z.civil i).written = some r := by
  have hseconds := Civil.seconds_written_of_not_offMinute hminute
  have hshown : i.unix + z.offsetAt i.unix = (z.civil i).written.seconds := by
    rw [hseconds, Zone.seconds_civil_eq]
  apply Zone.exists_earliest? hshown
  intro s hlower hupper
  have hoffset : -86400 < (z.civil i).written.seconds - s ∧
      (z.civil i).written.seconds - s < 86400 := by omega
  have hcovered := IsoDate.inRange_of_shows (Civil.shows_isoDate hyear true none) hoffset
  rwa [Int.sub_sub_self] at hcovered

/-- Written instants are read back, in every context where it can be said which day is today.  With
whole minutes of offset, the notation of RFC 3339 is read as the instant, without the fraction; and
in the zone in which they were written, date and time of day are read as the first instant that
shows them.  Of a leap second which is not the last of a minute the second after it is read. -/
theorem evaluateText_render (z : Zone) (i : Instant)
    (hyear : 0 ≤ (z.civil i).date.year ∧ (z.civil i).date.year ≤ 9999) :
    (z.offsetAt i.unix % 60 = 0 →
      ∃ text, OutputFormat.iso.render z i = .ok text ∧
        ∀ ctx, ctx.HasToday →
          ∃ r, evaluateText ctx (String.ofList text) = .ok r ∧ r.utc = i.utc.written) ∧
    ∃ text, OutputFormat.sql.render z i = .ok text ∧
      ∀ ctx, ctx.zone = z → ctx.HasToday →
        evaluateText ctx (String.ofList text) =
          (z.localize (z.civil i).written).mapError .eval ∧
        (¬ (z.civil i).OffMinute →
          ∃ r, evaluateText ctx (String.ofList text) = .ok r ∧
            z.civil r = (z.civil i).written ∧
            ∀ j, z.civil j = (z.civil i).written → r ≤ j) := by
  constructor
  · intro hminutes
    refine ⟨_, render_iso hyear hminutes, ?_⟩
    intro ctx htoday
    obtain ⟨r, hr, hutc⟩ := exists_evaluateText_zoned hyear false htoday
      (IsoZone.inRange_ofMinutes (z.offsetAt_bounds i.unix))
    refine ⟨r, hr, ?_⟩
    rw [hutc, IsoZone.offset_ofMinutes _ hminutes, Zone.civil,
      i.utc.written_add_minutes hminutes]
    simp only [Int.add_sub_cancel]
  · refine ⟨_, render_sql hyear, ?_⟩
    intro ctx hzone htoday
    have hvalue := evaluateText_local hyear true htoday
    rw [hzone] at hvalue
    refine ⟨hvalue, ?_⟩
    intro hminute
    obtain ⟨r, hr⟩ := Zone.exists_earliest?_written hyear hminute
    refine ⟨r, ?_, (Zone.earliest?_eq_some_iff.1 hr).1, fun j hj => Zone.le_of_earliest? hr hj⟩
    rw [← IsoDate.source, hvalue, Zone.localize, Zone.localize?_of_earliest? hr]
    rfl

/-- Half a second into the leap second at the end of 2016. -/
def endOf2016 : Instant :=
  ⟨{ seconds := 1483228799, nanos := 1500000000 }, by decide⟩

/-- The leap second at the end of 2016 in New York, rendered and read back. -/
theorem evaluateText_render_endOf2016 :
    (0 ≤ (Zone.newYork.civil endOf2016).date.year ∧
      (Zone.newYork.civil endOf2016).date.year ≤ 9999) ∧
    Zone.newYork.offsetAt endOf2016.unix % 60 = 0 ∧ ¬ (Zone.newYork.civil endOf2016).OffMinute ∧
    OutputFormat.iso.render Zone.newYork endOf2016 =
      .ok "2016-12-31T18:59:60-05:00".toList ∧
    (∀ ctx, ctx.HasToday → ∃ r, evaluateText ctx "2016-12-31T18:59:60-05:00" = .ok r ∧
      r.utc = { seconds := 1483228799, nanos := 1000000000 }) ∧
    ∀ ctx, ctx.zone = Zone.newYork → ctx.HasToday →
      ∃ r, evaluateText ctx "2016-12-31 18:59:60" = .ok r ∧
        Zone.newYork.civil r = (Zone.newYork.civil endOf2016).written := by
  have hyear : 0 ≤ (Zone.newYork.civil endOf2016).date.year ∧
      (Zone.newYork.civil endOf2016).date.year ≤ 9999 := by decide +kernel
  have hminutes : Zone.newYork.offsetAt endOf2016.unix % 60 = 0 := by decide +kernel
  have hminute : ¬ (Zone.newYork.civil endOf2016).OffMinute := by decide +kernel
  have hiso : OutputFormat.iso.render Zone.newYork endOf2016 =
      .ok "2016-12-31T18:59:60-05:00".toList := by rfl
  have hsql : OutputFormat.sql.render Zone.newYork endOf2016 =
      .ok "2016-12-31 18:59:60".toList := by rfl
  obtain ⟨hzoned, text, htext, hlocal⟩ := evaluateText_render Zone.newYork endOf2016 hyear
  refine ⟨hyear, hminutes, hminute, hiso, ?_, ?_⟩
  · intro ctx htoday
    obtain ⟨text, htext, hread⟩ := hzoned hminutes
    rw [hiso] at htext
    cases htext
    obtain ⟨r, hr, hutc⟩ := hread ctx htoday
    rw [String.ofList_toList] at hr
    exact ⟨r, hr, by rw [hutc]; decide⟩
  · intro ctx hzone htoday
    rw [hsql] at htext
    cases htext
    obtain ⟨r, hr, hcivil, -⟩ := (hlocal ctx hzone htoday).2 hminute
    rw [String.ofList_toList] at hr
    exact ⟨r, hr, hcivil⟩

/-- A leap second of 1880, when the clocks of New York were four hours, 56 minutes and two seconds
behind UTC and showed the end of second 57. -/
def leapOf1880 : Instant :=
  ⟨{ seconds := -2840077921, nanos := 1000000000 }, by decide⟩

/-- That leap second is not read back: what is written is read as the second after it. -/
theorem evaluateText_leapOf1880 :
    (Zone.newYork.civil leapOf1880).date.year = 1880 ∧
    OutputFormat.sql.render Zone.newYork leapOf1880 = .ok "1880-01-01 12:31:58".toList ∧
    ∀ ctx, ctx.zone = Zone.newYork → ctx.HasToday →
      ∃ r, evaluateText ctx "1880-01-01 12:31:58" = .ok r ∧ r.unix = leapOf1880.unix + 1 ∧
        Zone.newYork.civil r ≠ Zone.newYork.civil leapOf1880 := by
  have hyear : 0 ≤ (Zone.newYork.civil leapOf1880).date.year ∧
      (Zone.newYork.civil leapOf1880).date.year ≤ 9999 := by decide +kernel
  have hsql : OutputFormat.sql.render Zone.newYork leapOf1880 =
      .ok "1880-01-01 12:31:58".toList := by rfl
  have hsource : ((Zone.newYork.civil leapOf1880).isoDate hyear true none).source =
      "1880-01-01 12:31:58" := by
    rw [IsoDate.source, ← Except.ok.inj (hsql.symm.trans (render_sql hyear)),
      String.ofList_toList]
  have hmeant : Zone.newYork.localize? (Zone.newYork.civil leapOf1880).written =
      some (Instant.ofSeconds (-2840077920)) := by decide +kernel
  refine ⟨by decide +kernel, hsql, ?_⟩
  intro ctx hzone htoday
  refine ⟨Instant.ofSeconds (-2840077920), ?_, by decide, by decide +kernel⟩
  rw [← hsource, evaluateText_local hyear true htoday, hzone, Zone.localize, hmeant]
  rfl

end Almanac
