import Almanac.Literal.Value
import Almanac.Proofs.Operation.Composition
import Almanac.Proofs.Operation.Period

/-!
# Days with a name

Today is the day that clocks show now, and the midnights of yesterday, today and tomorrow follow one
another.  The name of a weekday means a day to come: the first midnight after now with which such
a day begins, which is that of today in a week if today is such a day.  Neither the letter case of
a name nor the day that weeks begin on changes what it means.

Main definitions:

- `Spells`: that a text is a word but for its letter case.
- `Context.Means`: what a word means in a context.
- `Context.BeginsDay`: the midnight of a day, counted from today.
- `Zone.NextMidnight`: the first midnight of a weekday after an instant.

Main results:

- Theorem `Date.weekday_addDays_iff`: which days fall on a weekday.
- Theorem `Context.exists_beginsDay`: away from the ends of the calendar, days have midnights.
- Theorem `Context.BeginsDay.le_now_iff`: the days that have begun.
- Theorem `Context.BeginsDay.nextMidnight`: the midnight of the next date on a weekday.
- Theorem `namedDays_around_now`: days with a name around now.
-/

namespace Almanac

/-! ## Weekdays -/

namespace Weekday

theorem sinceMonday_lt (w : Weekday) : w.sinceMonday < 7 := by
  cases w <;> decide

/-- A weekday is known by its distance from Monday. -/
theorem eq_of_sinceMonday_eq {v w : Weekday} (h : v.sinceMonday = w.sinceMonday) : v = w := by
  cases v <;> cases w <;> first | rfl | cases h

/-- The next day on a weekday is one to seven days ahead. -/
theorem daysUntil_bounds (current target : Weekday) :
    1 ≤ current.daysUntil target ∧ current.daysUntil target ≤ 7 := by
  rw [daysUntil]
  omega

end Weekday

/-- The days on a weekday are whole weeks from the next one. -/
theorem Date.weekday_addDays_iff {d : Date} {w : Weekday} {n : Int} :
    (d.addDays n).weekday = w ↔ (n - d.weekday.daysUntil w) % 7 = 0 := by
  have hshown : ((d.addDays n).weekday.sinceMonday : Int) = (d.dayNumber + n + 3) % 7 :=
    WeekStart.daysInto_weekday .monday _
  have hcurrent : (d.weekday.sinceMonday : Int) = (d.dayNumber + 3) % 7 :=
    WeekStart.daysInto_weekday .monday d
  have hw := w.sinceMonday_lt
  have hd := d.weekday.sinceMonday_lt
  have hiff : (d.addDays n).weekday = w ↔ (d.addDays n).weekday.sinceMonday = w.sinceMonday :=
    ⟨congrArg _, Weekday.eq_of_sinceMonday_eq⟩
  rw [hiff, Weekday.daysUntil]
  omega

/-- The calendar covers the days between two that it covers. -/
theorem Date.inRange_addDays {d : Date} {j k n : Int} (hj : (d.addDays j).InRange)
    (hk : (d.addDays k).InRange) (hle : j ≤ n) (hge : n ≤ k) : (d.addDays n).InRange := by
  simp only [InRange, addDays] at *
  omega

/-! ## Words -/

/-- A text is a word but for its letter case. -/
def Spells (text word : String) : Prop :=
  text.toList.map Char.toLower = word.toList.map Char.toLower

instance (text word : String) : Decidable (Spells text word) :=
  inferInstanceAs (Decidable (_ = _))

/-- A word means the instant `i`, in every letter case and whatever day weeks begin on. -/
def Context.Means (ctx : Context) (word : String) (i : Instant) : Prop :=
  ∀ text weekStart, Spells text word → dateValue { ctx with weekStart := weekStart } text = .ok i

/-- `m` is the first midnight after `now` that begins a day `w` of the week. -/
structure Zone.NextMidnight (z : Zone) (w : Weekday) (now m : Instant) : Prop where
  midnight : (z.civil m).time = .midnight
  weekday : (z.civil m).date.weekday = w
  after : now < m
  least : ∀ later, (z.civil later).time = .midnight → (z.civil later).date.weekday = w →
    now < later → m ≤ later

namespace Context

variable {ctx : Context} {a b m : Instant} {j k offset : Int} {w : Weekday}

/-- At the instant `m`, clocks show the midnight with which the day `k` days after today begins. -/
def BeginsDay (ctx : Context) (k : Int) (m : Instant) : Prop :=
  ctx.zone.civil m = (ctx.today.addDays k).at .midnight

/-- The civil time at which a day begins is its midnight. -/
theorem BeginsDay.seconds (hm : ctx.BeginsDay k m) :
    (ctx.zone.civil m).seconds = (ctx.today.dayNumber + k) * 86400 := by
  rw [hm]
  simp [Date.at, Date.addDays, TimeOfDay.midnight]

/-- A day begins with a whole second. -/
theorem BeginsDay.nanos (hm : ctx.BeginsDay k m) : m.utc.nanos = 0 := by
  rw [← Zone.nanos_civil ctx.zone, hm]
  rfl

/-- A midnight is that of a day counted from today. -/
theorem beginsDay_of_midnight (h : (ctx.zone.civil m).time = .midnight) :
    ∃ k, ctx.today.addDays k = (ctx.zone.civil m).date ∧ ctx.BeginsDay k m := by
  have hdate : ctx.today.addDays ((ctx.zone.civil m).date.dayNumber - ctx.today.dayNumber) =
      (ctx.zone.civil m).date := by
    rw [Date.addDays, Int.add_comm, Int.sub_add_cancel]
  refine ⟨_, hdate, ?_⟩
  rw [BeginsDay, hdate, ← h, Civil.at_date_time]

section

variable (hz : Zone.fixed? offset = some ctx.zone)
include hz

/-- A day has a midnight if the calendar covers it and the day before, which it may still be in
UTC. -/
theorem exists_beginsDay (hbefore : (ctx.today.addDays (k - 1)).InRange)
    (hk : (ctx.today.addDays k).InRange) : ∃ m, ctx.BeginsDay k m := by
  have hoffset := ctx.zone.offsetAt_bounds 0
  rw [Zone.offsetAt_of_fixed hz] at hoffset
  have hcovered : Civil.InRange
      ⟨(ctx.today.dayNumber + k) * 86400 - offset, 0, TimeOfDay.midnight.nanos_lt⟩ := by
    simp only [Civil.InRange, Date.InRange, Date.addDays, Civil.date, secondsPerDay] at hbefore hk ⊢
    omega
  refine ⟨⟨_, hcovered⟩, Civil.ext ?_ rfl⟩
  rw [Zone.seconds_civil hz]
  simp [Date.at, Date.addDays, TimeOfDay.midnight]

/-! ### Around now -/

/-- Days begin one after the other. -/
theorem BeginsDay.le_iff (ha : ctx.BeginsDay j a) (hb : ctx.BeginsDay k b) : a ≤ b ↔ j ≤ k := by
  rw [← Zone.civil_le_civil_iff hz, Civil.le_iff, ha.seconds, hb.seconds, Zone.nanos_civil,
    Zone.nanos_civil, ha.nanos, hb.nanos]
  omega

/-- The days that have begun are those up to today. -/
theorem BeginsDay.le_now_iff (hm : ctx.BeginsDay k m) : m ≤ ctx.now ↔ k ≤ 0 := by
  have htoday : ctx.today.dayNumber = (ctx.zone.civil ctx.now).seconds / 86400 := rfl
  rw [← Zone.civil_le_civil_iff hz, Civil.le_iff, hm.seconds, Zone.nanos_civil, hm.nanos]
  omega

/-- Shifts by days lead from midnight to midnight. -/
theorem BeginsDay.shift_eq (ha : ctx.BeginsDay j a) (hb : ctx.BeginsDay k b)
    (hj : (ctx.today.addDays j).InRange) (hk : (ctx.today.addDays k).InRange) :
    shift ctx.zone a (k - j) 'd' = .ok b := by
  have hleap : a.isLeapSecond = false := by
    rw [Instant.isLeapSecond, Civil.isLeapSecond_eq_false_iff, ha.nanos]
    decide
  have hcovered : (ctx.zone.civil a).InRange ∧ (ctx.zone.civil b).InRange := by
    rw [ha, hb, Civil.InRange, Civil.InRange, Civil.date_at, Civil.date_at]
    exact ⟨hj, hk⟩
  have hlands : ctx.zone.Lands (k - j) .day a b := by
    refine ⟨?_, ?_⟩
    · rw [ha.seconds, hb.seconds]
      omega
    · rw [Zone.nanos_civil, Zone.nanos_civil, ha.nanos, hb.nanos]
  exact (Zone.shiftsTo_of_lands hz hleap (fun _ => hcovered) hlands).leads

/-- The midnight of the next date on a weekday is the first after now that begins such a day. -/
theorem BeginsDay.nextMidnight (hm : ctx.BeginsDay (ctx.today.weekday.daysUntil w) m) :
    ctx.zone.NextMidnight w ctx.now m := by
  obtain ⟨hpos, hle⟩ := Weekday.daysUntil_bounds ctx.today.weekday w
  refine ⟨?_, ?_, ?_, ?_⟩
  · rw [hm, Civil.time_at]
  · rw [hm, Civil.date_at, Date.weekday_addDays_iff, Int.sub_self]
    rfl
  · rw [← Instant.not_le, hm.le_now_iff hz]
    omega
  · intro later hmidnight hweekday hafter
    obtain ⟨k, hdate, hlater⟩ := beginsDay_of_midnight hmidnight
    rw [← Instant.not_le, hlater.le_now_iff hz] at hafter
    rw [← hdate, Date.weekday_addDays_iff] at hweekday
    rw [hm.le_iff hz hlater]
    omega

/-! ### What names mean -/

/-- What is meant by the midnight of a day that the calendar covers. -/
theorem BeginsDay.midnightOf_eq (hm : ctx.BeginsDay k m) (hk : (ctx.today.addDays k).InRange)
    (text : String) : midnightOf ctx text (ctx.today.addDays k) = .ok m := by
  have hlocalize : ctx.zone.localize? ((ctx.today.addDays k).at .midnight) = some m := by
    rw [← hm]
    exact Zone.localize?_civil hz m
  simp only [midnightOf, Date.inRange?, if_pos hk]
  exact orOutOfRange_eq_ok_iff.2 hlocalize

/-- The names of days around today. -/
theorem BeginsDay.means_namedDay {word : String} (hm : ctx.BeginsDay k m)
    (htoday : ctx.HasToday) (hk : (ctx.today.addDays k).InRange)
    (hword : namedDay? (String.ofList (word.toList.map Char.toLower)) = some k) :
    ctx.Means word m := by
  intro text weekStart hspells
  have hnow : String.ofList (word.toList.map Char.toLower) ≠ "now" := by
    intro hnow
    rw [hnow] at hword
    cases hword
  unfold Spells at hspells
  have htoday' : Context.HasToday { ctx with weekStart := weekStart } := htoday
  rw [dateValue_of_hasToday htoday']
  simp only [valueOn, hspells, if_neg hnow, hword]
  exact hm.midnightOf_eq hz hk text

/-- The names of weekdays. -/
theorem BeginsDay.means_weekday (hm : ctx.BeginsDay (ctx.today.weekday.daysUntil w) m)
    (htoday : ctx.HasToday) (hk : (nextOn w ctx.today).InRange) : ctx.Means w.name m := by
  intro text weekStart hspells
  have hnow : String.ofList (w.name.toList.map Char.toLower) ≠ "now" := by
    cases w <;> decide
  have hday : namedDay? (String.ofList (w.name.toList.map Char.toLower)) = none := by
    cases w <;> decide
  have hname : Weekday.ofName? (String.ofList (w.name.toList.map Char.toLower)) = some w := by
    cases w <;> decide
  unfold Spells at hspells
  have htoday' : Context.HasToday { ctx with weekStart := weekStart } := htoday
  rw [dateValue_of_hasToday htoday']
  simp only [valueOn, hspells, if_neg hnow, hday, hname]
  exact hm.midnightOf_eq hz hk w.shortName

end

end Context

/-- Days with a name, in a zone with one offset and away from the ends of the calendar.  Now lies
between the midnights that `today` and `tomorrow` mean.  These and `yesterday` are the midnights of
three days on end, to which shifts by days lead from that of today.  The name of a weekday means
the first midnight after now that begins such a day, one to seven days after today. -/
theorem namedDays_around_now {ctx : Context} {offset : Int}
    (hz : Zone.fixed? offset = some ctx.zone) (hfirst : (ctx.today.addDays (-2)).InRange)
    (hlast : (ctx.today.addDays 7).InRange) :
    ∃ yesterday today tomorrow,
      (ctx.Means "yesterday" yesterday ∧ ctx.Means "today" today ∧
        ctx.Means "tomorrow" tomorrow) ∧
      (today ≤ ctx.now ∧ ctx.now < tomorrow) ∧
      (ctx.BeginsDay (-1) yesterday ∧ ctx.BeginsDay 0 today ∧ ctx.BeginsDay 1 tomorrow) ∧
      (shift ctx.zone today (-1) 'd' = .ok yesterday ∧ shift ctx.zone today 0 'd' = .ok today ∧
        shift ctx.zone today 1 'd' = .ok tomorrow) ∧
      ∀ w : Weekday, ∃ next, ctx.Means w.name next ∧ ctx.zone.NextMidnight w ctx.now next ∧
        ∃ days, (1 ≤ days ∧ days ≤ 7) ∧ ctx.BeginsDay days next ∧
          shift ctx.zone today days 'd' = .ok next := by
  have hday (k : Int) (hle : -2 ≤ k) (hge : k ≤ 7) : (ctx.today.addDays k).InRange :=
    Date.inRange_addDays hfirst hlast hle hge
  have hcovered : ctx.HasToday := by
    have hsame := hday 0 (by decide) (by decide)
    rwa [Date.addDays, Int.add_zero] at hsame
  have hbegins (k : Int) (hle : -1 ≤ k) (hge : k ≤ 7) : ∃ m, ctx.BeginsDay k m :=
    Context.exists_beginsDay hz (hday _ (by omega) (by omega)) (hday _ (by omega) hge)
  obtain ⟨yesterday, hyesterday⟩ := hbegins (-1) (by decide) (by decide)
  obtain ⟨today, htoday⟩ := hbegins 0 (by decide) (by decide)
  obtain ⟨tomorrow, htomorrow⟩ := hbegins 1 (by decide) (by decide)
  have hshift {k : Int} {m : Instant} (hm : ctx.BeginsDay k m) (hle : -2 ≤ k) (hge : k ≤ 7) :
      shift ctx.zone today k 'd' = .ok m := by
    have hshift := htoday.shift_eq hz hm (hday 0 (by decide) (by decide)) (hday k hle hge)
    rwa [Int.sub_zero] at hshift
  refine ⟨yesterday, today, tomorrow, ⟨?_, ?_, ?_⟩, ⟨?_, ?_⟩,
    ⟨hyesterday, htoday, htomorrow⟩, ⟨?_, ?_, ?_⟩, ?_⟩
  · exact hyesterday.means_namedDay hz hcovered (hday _ (by decide) (by decide)) (by decide)
  · exact htoday.means_namedDay hz hcovered (hday _ (by decide) (by decide)) (by decide)
  · exact htomorrow.means_namedDay hz hcovered (hday _ (by decide) (by decide)) (by decide)
  · exact (htoday.le_now_iff hz).2 (Int.le_refl 0)
  · rw [← Instant.not_le, htomorrow.le_now_iff hz]
    decide
  · exact hshift hyesterday (by decide) (by decide)
  · exact hshift htoday (by decide) (by decide)
  · exact hshift htomorrow (by decide) (by decide)
  · intro w
    obtain ⟨hpos, hle⟩ := Weekday.daysUntil_bounds ctx.today.weekday w
    obtain ⟨next, hnext⟩ := hbegins (ctx.today.weekday.daysUntil w) (by omega) (by omega)
    refine ⟨next, hnext.means_weekday hz hcovered (hday _ (by omega) (by omega)), hnext.nextMidnight hz, ?_⟩
    exact ⟨_, ⟨by omega, by omega⟩, hnext, hshift hnext (by omega) (by omega)⟩

/-- In the leap second at the end of 2016, when an hour ahead of UTC it was Sunday already. -/
def leapSunday : Context where
  now := ⟨⟨1483228799, 1600000000, by decide⟩, by decide⟩
  zone := .hourAhead

/-- Within a leap second on a Sunday, the next Sunday is a week away. -/
theorem namedDays_around_now_leapSecond :
    Zone.fixed? 3600 = some leapSunday.zone ∧
      ∃ today next,
        (dateValue leapSunday "Today" = .ok today ∧
          leapSunday.zone.civil today = (Date.ofYMD 2017 1 1).at .midnight ∧
          today ≤ leapSunday.now) ∧
        dateValue leapSunday "SUNDAY" = .ok next ∧
          leapSunday.zone.civil next = (Date.ofYMD 2017 1 8).at .midnight ∧
          leapSunday.zone.NextMidnight .sunday leapSunday.now next := by
  have hz : Zone.fixed? 3600 = some leapSunday.zone := by decide +kernel
  obtain ⟨-, today, -, ⟨-, hmeans, -⟩, ⟨hle, -⟩, ⟨-, hbegins, -⟩, -, hweekdays⟩ :=
    namedDays_around_now hz (by decide) (by decide)
  obtain ⟨next, hnext, hfirst, days, hdays, hbegins', -⟩ := hweekdays .sunday
  have hweek : days = 7 := by
    have hsunday := hfirst.weekday
    have huntil : leapSunday.today.weekday.daysUntil .sunday = 7 := by decide
    rw [hbegins', Civil.date_at, Date.weekday_addDays_iff, huntil] at hsunday
    omega
  subst hweek
  have htoday : leapSunday.today = Date.ofYMD 2017 1 1 := by decide +kernel
  have hnextDate : leapSunday.today.addDays 7 = Date.ofYMD 2017 1 8 := by decide +kernel
  refine ⟨hz, today, next, ⟨hmeans "Today" .monday (by decide), ?_, hle⟩,
    hnext "SUNDAY" .monday (by decide), ?_, hfirst⟩
  · rw [hbegins, Date.addDays, Int.add_zero, htoday]
  · rw [hbegins', hnextDate]

end Almanac
