import Almanac.Proofs.Operation.Shift
import Almanac.Proofs.Zone.Localize
import Almanac.Zone.Table

/-!
# Shifts in any zone

Seconds, minutes and hours are time that passes, so that the clocks of a zone do not matter to
a shift by them.  A shift by days or by months moves what the clocks show and keeps the time of
day; it leads to the first instant at which they show that, or where they skip it to the first at
which they show one hour more.  In between clocks may have been set forward or back, more than once;
but if never by half a day, a shift ahead leads ahead and a shift back leads back.

Main definitions:

- `Period.elapses`: the units that are time that passes.
- `Zone.FirstShows`: the first instant at which the clocks show a civil time.
- `Zone.Encloses`: nothing around a civil time is out of range.
- `Zone.OffsetsWithin`: how far the offsets of a zone lie apart.

Main results:

- Theorems `shift_eq_ok_iff_of_elapses`, `shift_eq_ok_iff_of_calendar`: where shifts lead.
- Theorem `Zone.localize?_eq_some_iff_of_encloses`: what a civil time means, in terms of what
  clocks show.
- Theorem `Zone.encloses_of_inRange`: where nothing is out of range.
- Theorem `Period.Moves.seconds_le`: a calendar unit is at least a day on the wall.
- Theorem `Zone.OffsetsWithin.slip_bounds`: what clock changes can add to that.
- Theorem `shift_moves`: shifts in any zone.
-/

namespace Almanac

variable {z : Zone} {p : Period} {c d : Civil} {i r : Instant} {amount : Int}

/-! ## Where shifts lead -/

/-- The units that are counted as time that passes, whatever the clocks show. -/
def Period.elapses : Period → Bool
  | second | minute | hour => true
  | _ => false

/-- A shift by a unit of time that passes is exact in every zone. -/
theorem shift_eq_ok_iff_of_elapses (hi : i.isLeapSecond = false) (hp : p.elapses = true) :
    shift z i amount p.letter = .ok r ↔ p.Moves amount i.utc r.utc := by
  cases hmeasure : p.measure with
  | seconds n =>
      rw [shift_letter_of_seconds hmeasure, Period.moves_iff, hmeasure, orOutOfRange_eq_ok_iff]
      exact Instant.bind_add?_eq_some_iff hi
  | days n => cases p <;> cases hmeasure <;> cases hp
  | months n => cases p <;> cases hmeasure <;> cases hp

/-- A shift by any other unit leads to what the zone means by the civil time that lies so many
units later. -/
theorem shift_eq_ok_iff_of_calendar (hi : i.isLeapSecond = false) (hc : (z.civil i).InRange)
    (hp : p.elapses = false) :
    shift z i amount p.letter = .ok r ↔
      ∃ d, (p.Moves amount (z.civil i) d ∧ d.InRange) ∧ z.localize? d = some r := by
  have hleap : (z.civil i).isLeapSecond = false := hi
  simp only [shift_letter hc, Period.moves_iff]
  cases hmeasure : p.measure with
  | seconds n => cases p <;> cases hmeasure <;> cases hp
  | days n =>
      simp only [Zone.bind_localize_eq_ok_iff, orOutOfRange_eq_ok_iff,
        Civil.bind_add?_eq_some_iff hleap hc]
  | months n =>
      simp only [Zone.bind_localize_eq_ok_iff, orOutOfRange_eq_ok_iff,
        Civil.addMonths?_eq_some_iff hc]

/-! ## What clocks show -/

namespace Zone

/-- `r` is the first instant at which the clocks of a zone show the civil time `c`. -/
structure FirstShows (z : Zone) (c : Civil) (r : Instant) : Prop where
  shows : z.civil r = c
  first : ∀ j, z.civil j = c → r ≤ j

/-- The calendar covers all moments at which the clocks of a zone show the civil time `c`. -/
def ShowsInRange (z : Zone) (c : Civil) : Prop :=
  ∀ unix ∈ z.preimages c.seconds, Civil.InRange { c with seconds := unix }

/-- Nothing around the civil time `c` is out of range: not `c`, not the moments at which the clocks
of a zone show it, and if they skip it, not the same one hour later. -/
structure Encloses (z : Zone) (c : Civil) : Prop where
  inRange : c.InRange
  shown : z.ShowsInRange c
  later : z.preimages c.seconds = [] →
    (c.add Span.hour).InRange ∧ z.ShowsInRange (c.add Span.hour)

section

variable (h : z.ShowsInRange c)
include h

/-- The earliest instant of a reading is the first at which the clock shows it. -/
theorem earliest?_eq_some_iff_firstShows : z.earliest? c = some r ↔ z.FirstShows c r := by
  constructor
  · intro hr
    exact ⟨(earliest?_eq_some_iff.1 hr).1, fun j hj => le_of_earliest? hr hj⟩
  · rintro ⟨rfl, hfirst⟩
    refine earliest?_eq_some_iff.2 ⟨rfl, ?_⟩
    intro unix hunix
    -- The clock shows `c` at the instant of that second too, which is no earlier.
    have hcovered := h unix (mem_preimages_iff.2 hunix)
    have hle := hfirst ⟨_, hcovered⟩ (Civil.ext hunix rfl)
    rw [Instant.le_iff] at hle
    simp only [Instant.unix] at hle ⊢
    omega

/-- There is no earliest instant where there is none at all. -/
theorem earliest?_eq_none_iff : z.earliest? c = none ↔ z.preimages c.seconds = [] := by
  rw [earliest?]
  cases hmin : (z.preimages c.seconds).min? with
  | none => simp [List.min?_eq_none_iff.1 hmin]
  | some first =>
      have hmem : first ∈ z.preimages c.seconds := (List.min?_eq_some_iff.1 hmin).1
      simp [Instant.ofUtc?, h first hmem, List.ne_nil_of_mem hmem]

/-- A reading that the clock skips has no instants. -/
theorem preimages_eq_nil_iff : z.preimages c.seconds = [] ↔ ∀ j, z.civil j ≠ c := by
  constructor
  · rintro hnil j rfl
    have hmem : j.unix ∈ z.preimages (z.civil j).seconds := mem_preimages_iff.2 rfl
    rw [hnil] at hmem
    cases hmem
  · intro hnot
    rw [List.eq_nil_iff_forall_not_mem]
    intro unix hunix
    exact hnot ⟨_, h unix hunix⟩ (Civil.ext (mem_preimages_iff.1 hunix) rfl)

end

/-- What a zone means by a civil time: the first instant at which its clocks show it, or if they
never do, the first at which they show one hour more. -/
theorem localize?_eq_some_iff_of_encloses (h : z.Encloses c) :
    z.localize? c = some r ↔
      z.FirstShows c r ∨ (∀ j, z.civil j ≠ c) ∧ z.FirstShows (c.add Span.hour) r := by
  rw [localize?_eq_some_iff, earliest?_eq_some_iff_firstShows h.shown,
    earliest?_eq_none_iff h.shown, ← preimages_eq_nil_iff h.shown]
  constructor
  · rintro (hfirst | ⟨hnil, hr, -⟩)
    · exact .inl hfirst
    · exact .inr ⟨hnil, (earliest?_eq_some_iff_firstShows (h.later hnil).2).1 hr⟩
  · rintro (hfirst | ⟨hnil, hr⟩)
    · exact .inl hfirst
    · exact .inr ⟨hnil, (earliest?_eq_some_iff_firstShows (h.later hnil).2).2 hr, (h.later hnil).1⟩

/-- Away from the first days of the calendar and the last, nothing is out of range in any zone. -/
theorem encloses_of_inRange (z : Zone) (hbefore : (c.date.addDays (-1)).InRange)
    (hafter : (c.date.addDays 2).InRange) : z.Encloses c := by
  have hnear (d : Civil) (hle : c.seconds - 86400 ≤ d.seconds) (hlt : d.seconds < c.seconds + 90000) :
      d.InRange := by
    simp only [Civil.InRange, Date.InRange, Date.addDays, Civil.date, secondsPerDay] at *
    omega
  have hshows (d : Civil) (hle : c.seconds ≤ d.seconds) (hlt : d.seconds ≤ c.seconds + 3600) :
      z.ShowsInRange d := by
    intro unix hunix
    have hshown := mem_preimages_iff.1 hunix
    have hoffset := z.offsetAt_bounds unix
    exact hnear _ (by simp only; omega) (by simp only; omega)
  have hhour := Civil.seconds_add_hour c
  exact ⟨hnear c (by omega) (by omega), hshows c (by omega) (by omega),
    fun _ => ⟨hnear _ (by omega) (by omega), hshows _ (by omega) (by omega)⟩⟩

/-! ## Ahead and back -/

/-- Any two offsets of a zone are less than so many seconds apart. -/
def OffsetsWithin (z : Zone) (seconds : Int) : Prop :=
  ∀ a ∈ z.offsets, ∀ b ∈ z.offsets, a - b < seconds

/-- What clock changes add on the way is less than the offsets are apart, and an hour where they skip
a civil time. -/
theorem OffsetsWithin.slip_bounds {seconds : Int} (h : z.OffsetsWithin seconds) (i r : Instant)
    (c : Civil) : -seconds < z.slip i r c ∧ z.slip i r c < seconds + 3600 := by
  have hahead := h _ (z.offsetAt_mem_offsets i.unix) _ (z.offsetAt_mem_offsets r.unix)
  have hback := h _ (z.offsetAt_mem_offsets r.unix) _ (z.offsetAt_mem_offsets i.unix)
  have hskip := z.skipped_bounds c
  rw [slip]
  omega

end Zone

/-- At the same time of day, civil times are as far apart as their dates. -/
theorem Civil.seconds_sub_of_time_eq (h : d.time = c.time) :
    d.seconds - c.seconds = (d.date.dayNumber - c.date.dayNumber) * secondsPerDay := by
  have hseconds := congrArg TimeOfDay.seconds h
  simp only [date, time, secondsPerDay] at hseconds ⊢
  omega

namespace Period

/-- The units of the calendar keep the time of day. -/
theorem time_of_moves (hp : p.elapses = false) (h : p.Moves amount c d) : d.time = c.time := by
  have hdays {n : Int} (hafter : c.SecondsAfter (n * secondsPerDay) d) : d.time = c.time := by
    have hseconds := hafter.seconds
    simp only [Civil.time, TimeOfDay.mk.injEq, hafter.nanos, and_true, secondsPerDay] at hseconds ⊢
    omega
  rw [moves_iff] at h
  cases hmeasure : p.measure with
  | seconds n => cases p <;> cases hmeasure <;> cases hp
  | days n =>
      rw [hmeasure] at h
      exact hdays h
  | months n =>
      rw [hmeasure] at h
      exact h.time

/-- A unit of the calendar is at least a day on the wall, ahead or back. -/
theorem Moves.seconds_le (hp : p.elapses = false) (h : p.Moves amount c d) :
    (1 ≤ amount → c.seconds + secondsPerDay ≤ d.seconds) ∧
      (amount ≤ -1 → d.seconds + secondsPerDay ≤ c.seconds) := by
  have hwall := Civil.seconds_sub_of_time_eq (time_of_moves hp h)
  have hmonths {n : Int} (hafter : c.MonthsAfter n d) :
      (1 ≤ n → c.date.dayNumber + 1 ≤ d.date.dayNumber) ∧
        (n ≤ -1 → d.date.dayNumber + 1 ≤ c.date.dayNumber) := by
    constructor
    · intro hpos
      have := hafter.date.lt hpos
      omega
    · intro hneg
      have := hafter.date.lt_of_neg hneg
      omega
  simp only [secondsPerDay] at hwall ⊢
  cases p with
  | second | minute | hour => cases hp
  | day | week =>
      have := h.seconds
      omega
  | month | quarter | year =>
      have := hmonths h
      omega

end Period

/-- Where the clocks of a zone are never set forward or back by half a day, what is meant by a civil
time a day ahead lies ahead, and what is meant by one a day back lies back. -/
theorem Zone.OffsetsWithin.lt_of_localize? (hz : z.OffsetsWithin 43200)
    (h : z.localize? d = some r) :
    ((z.civil i).seconds + secondsPerDay ≤ d.seconds → i < r) ∧
      (d.seconds + secondsPerDay ≤ (z.civil i).seconds → r < i) := by
  have hunix := Zone.unix_of_localize? h i
  obtain ⟨hlower, hupper⟩ := hz.slip_bounds i r d
  rw [Instant.lt_iff, Instant.lt_iff]
  simp only [Instant.unix, secondsPerDay] at hunix ⊢
  omega

/-! ## Any zone -/

/-- Shifts in any zone, away from leap seconds.  By seconds, minutes and hours, so much time passes.
By a unit of the calendar, the civil time of the instant is moved and keeps its time of day; where
nothing is out of range, the shift leads to the first instant that shows it, or if none does to
the first that shows one hour more.  And if the offsets of the zone are less than half a day apart,
it leads ahead if the amount is positive, and back if it is negative. -/
theorem shift_moves (z : Zone) (p : Period) (amount : Int) {i : Instant}
    (hi : i.isLeapSecond = false) :
    (p.elapses = true → ∀ r, shift z i amount p.letter = .ok r ↔ p.Moves amount i.utc r.utc) ∧
    (p.elapses = false → (z.civil i).InRange →
      ∃ d, (∀ e, p.Moves amount (z.civil i) e ↔ e = d) ∧ d.time = (z.civil i).time ∧
        (z.Encloses d → ∀ r, shift z i amount p.letter = .ok r ↔
          z.FirstShows d r ∨ (∀ j, z.civil j ≠ d) ∧ z.FirstShows (d.add Span.hour) r) ∧
        (z.OffsetsWithin 43200 → ∀ r, shift z i amount p.letter = .ok r →
          (1 ≤ amount → i < r) ∧ (amount ≤ -1 → r < i))) := by
  refine ⟨fun hp r => shift_eq_ok_iff_of_elapses hi hp, ?_⟩
  intro hp hc
  obtain ⟨d, hd⟩ := p.exists_moves_iff amount (z.civil i)
  have hmoves : p.Moves amount (z.civil i) d := (hd d).2 rfl
  have hshift (r : Instant) :
      shift z i amount p.letter = .ok r ↔ d.InRange ∧ z.localize? d = some r := by
    rw [shift_eq_ok_iff_of_calendar hi hc hp]
    simp only [hd, and_assoc, exists_eq_left]
  refine ⟨d, hd, Period.time_of_moves hp hmoves, ?_, ?_⟩
  · intro hencloses r
    rw [hshift, Zone.localize?_eq_some_iff_of_encloses hencloses]
    simp only [hencloses.inRange, true_and]
  · intro hz r hr
    obtain ⟨hahead, hback⟩ := hmoves.seconds_le hp
    obtain ⟨hlt, hgt⟩ := hz.lt_of_localize? (i := i) ((hshift r).1 hr).2
    exact ⟨fun hpos => hlt (hahead hpos), fun hneg => hgt (hback hneg)⟩

/-- Half past two in the night before New York sets its clocks forward. -/
def dayBeforeSpring : Instant :=
  Instant.ofSeconds 1709969400

/-- Half past two in the next night, which the clocks skip. -/
def skippedReading : Civil where
  seconds := 1710037800
  nanos := 0
  nanos_lt := TimeOfDay.midnight.nanos_lt

/-- Half past three in that night. -/
def afterSpring : Instant :=
  Instant.ofSeconds 1710055800

/-- A day before the clocks skip an hour, to a reading within that hour. -/
theorem shift_moves_springForward :
    dayBeforeSpring.isLeapSecond = false ∧ (Zone.newYork.civil dayBeforeSpring).InRange ∧
      Zone.newYork.Encloses skippedReading ∧ Zone.newYork.OffsetsWithin 43200 ∧
      shift Zone.newYork dayBeforeSpring 1 'd' = .ok afterSpring ∧
      (∀ j, Zone.newYork.civil j ≠ skippedReading) ∧
      Zone.newYork.FirstShows (skippedReading.add Span.hour) afterSpring ∧
      dayBeforeSpring < afterSpring := by
  have hi : dayBeforeSpring.isLeapSecond = false := by decide
  have hc : (Zone.newYork.civil dayBeforeSpring).InRange := by decide +kernel
  have hencloses : Zone.newYork.Encloses skippedReading :=
    Zone.encloses_of_inRange _ (by decide) (by decide)
  have hoffsets : Zone.newYork.OffsetsWithin 43200 := by
    unfold Zone.OffsetsWithin
    decide +kernel
  have hmoves : Period.day.Moves 1 (Zone.newYork.civil dayBeforeSpring) skippedReading :=
    ⟨by decide +kernel, by decide +kernel⟩
  have hshift : shift Zone.newYork dayBeforeSpring 1 'd' = .ok afterSpring :=
    (shift_eq_ok_iff_of_calendar (p := .day) hi hc rfl).2
      ⟨skippedReading, ⟨hmoves, hencloses.inRange⟩, by decide +kernel⟩
  obtain ⟨d, hd, -, hleads, hahead⟩ := (shift_moves Zone.newYork .day 1 hi).2 rfl hc
  obtain rfl := (hd _).1 hmoves
  refine ⟨hi, hc, hencloses, hoffsets, hshift, ?_⟩
  rcases (hleads hencloses afterSpring).1 hshift with hshown | ⟨hskipped, hlater⟩
  · exact absurd hshown.shows (by decide +kernel)
  · exact ⟨hskipped, hlater, (hahead hoffsets _ hshift).1 (by decide)⟩

end Almanac
