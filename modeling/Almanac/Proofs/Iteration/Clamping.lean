import Almanac.Proofs.Iteration.Run
import Almanac.Proofs.Operation.Shift
import Almanac.Zone.Table

/-!
# Steps cut at the end of the range

An interval may be far longer than the range that it divides.  One step then reaches the end of
the range or passes it, is cut there, and is the only one.  But a step is found before it is
cut.  If it leaves the calendar, it is not found, and the range has no steps at all, be its end
ever so near.

Main definitions:

- `Interval.Moves`: that a civil time lies one interval after another, in the calendar or not.
- `Plan.asked`: the text shown for a step that would leave the calendar.

Main results:

- Theorem `Interval.exists_moves_iff`: there is one civil time an interval after another.
- Theorem `Plan.collect_of_le_reached`: a step that reaches the end of the range covers it.
- Theorem `Plan.collect_of_advance_error`: a step that is not found ends the iteration.
- Theorem `iterateRange_clamped`: the only step of a range in UTC, or the error that it leaves
  the calendar.
-/

namespace Almanac

open Text

variable {i start stop reached : Instant} {c d : Civil} {interval : Interval}

/-! ## One interval later -/

namespace Interval

/-- A civil time one interval after another, be it in the calendar or not: so many nanoseconds
later, or at the same time of day so many months later. -/
def Moves (interval : Interval) (c d : Civil) : Prop :=
  match interval with
  | fixed span => d.isLeapSecond = false ∧ d.toNanos = c.toNanos + span.nanos
  | calendar months => c.MonthsAfter months d

/-- There is one civil time an interval after another. -/
theorem exists_moves_iff (interval : Interval) (c : Civil) :
    ∃ d, ∀ e, interval.Moves c e ↔ e = d := by
  cases interval with
  | fixed span =>
      refine ⟨Civil.ofNanos (c.toNanos + span.nanos), ?_⟩
      intro e
      constructor
      · rintro ⟨hleap, hnanos⟩
        rw [← hnanos, Civil.ofNanos_toNanos hleap]
      · rintro rfl
        exact ⟨Civil.isLeapSecond_ofNanos _, Civil.toNanos_ofNanos _⟩
  | calendar months => exact c.exists_monthsAfter_iff months

/-- A step leads to a leap second from one only. -/
theorem isLeapSecond_of_moves (hc : c.isLeapSecond = false) (h : interval.Moves c d) :
    d.isLeapSecond = false := by
  cases interval with
  | fixed span => exact h.1
  | calendar months =>
      rw [Civil.isLeapSecond_eq_false_iff] at hc ⊢
      rwa [show d.nanos = c.nanos from congrArg TimeOfDay.nanos h.time]

end Interval

namespace Plan

variable {plan : Plan}

/-- The text shown if one interval after `i` would lie outside the calendar. -/
def asked (plan : Plan) (interval : Interval) (i : Instant) : List Char :=
  match interval with
  | .fixed span => plan.overflowText i span
  | .calendar months => signed months ++ ['M']

/-- In UTC the instant one interval after another is found by its civil time alone. -/
theorem exists_advance_eq (hz : ∀ unix, plan.context.zone.offsetAt unix = 0)
    (hi : i.isLeapSecond = false) (interval : Interval) :
    ∃ found : Option Instant, plan.advance interval i = orOutOfRange (plan.asked interval i) found ∧
      ∀ r, found = some r ↔ interval.Moves i.utc r.utc := by
  cases interval with
  | fixed span => exact ⟨i.add? span, rfl, fun r => Instant.add?_eq_some_iff hi⟩
  | calendar months => exact exists_shift_eq hz hi months .month

/-! ## The first step -/

/-- A step that reaches the end of the range or passes it covers the range, leap seconds
included. -/
theorem collect_of_le_reached (hinterval : plan.interval = some interval)
    (htransform : plan.transform = none) (hreached : plan.advance interval start = .ok reached)
    (hle : plan.stop ≤ reached) (hspan : Span.second.nanos ≤ (plan.stop.since start).nanos) :
    plan.collect { current := start } = .ok [⟨0, start, plan.stop⟩] := by
  have hpiece : plan.piece? { current := start } = some (.ok (start, plan.stop)) :=
    (piece?_eq_ok_iff hinterval).2 ⟨rfl, Instant.lt_of_second_le_since hspan, rfl,
      ⟨reached, hreached, (Instant.earlier_eq_right hle).symm⟩, hspan, Nat.zero_lt_succ _⟩
  have hnext := next_eq_ok_iff.2 ⟨plan.stop, hpiece, by rw [report, htransform], rfl⟩
  have hover : plan.collect (plan.next { current := start }).2 = .ok [] := by
    rw [hnext]
    exact collect_of_none
      (next_eq_none_iff.2 (piece?_eq_none_of_le hinterval (Instant.le_refl plan.stop)))
  rw [collect_of_step (congrArg Prod.fst hnext), hover]
  rfl

/-- A first step that is not found ends the iteration, however near the end of the range is. -/
theorem collect_of_advance_error {e : EvalError} (hinterval : plan.interval = some interval)
    (htransform : plan.transform = none) (hlt : start < plan.stop)
    (herror : plan.advance interval start = .error e) :
    plan.collect { current := start } = .error (.eval e) := by
  have hpiece : plan.piece? { current := start } = some (.error (.eval e)) :=
    (piece?_eq_error_iff hinterval).2 ⟨rfl, hlt, .inl ⟨e, herror, rfl⟩⟩
  exact collect_of_error ((next_eq_error_iff htransform).2 hpiece)

/-- The first step in UTC, if it reaches the end of the range or passes it. -/
theorem exists_collect_eq (hz : ∀ unix, plan.context.zone.offsetAt unix = 0)
    (hinterval : plan.interval = some interval) (htransform : plan.transform = none)
    (hstart : start.isLeapSecond = false)
    (hspan : Span.second.nanos ≤ (plan.stop.since start).nanos) :
    ∃ d, (∀ e, interval.Moves start.utc e ↔ e = d) ∧
      (plan.stop.utc ≤ d →
        plan.collect { current := start } =
          if Civil.first ≤ d ∧ d ≤ Civil.last then .ok [⟨0, start, plan.stop⟩]
          else .error (.eval (.outOfRange (String.ofList (plan.asked interval start))))) := by
  obtain ⟨d, hd⟩ := interval.exists_moves_iff start.utc
  obtain ⟨found, hadvance, hfound⟩ := exists_advance_eq hz hstart interval
  have hresult := @orOutOfRange_of_unique d (plan.asked interval start) found
    (Interval.isLeapSecond_of_moves hstart ((hd d).2 rfl)) fun r => (hfound r).trans (hd r.utc)
  rw [← hadvance] at hresult
  refine ⟨d, hd, ?_⟩
  intro hle
  split at hresult <;> rename_i hbetween
  · obtain ⟨reached, hreached, rfl⟩ := hresult
    rw [if_pos hbetween]
    exact collect_of_le_reached hinterval htransform hreached hle hspan
  · rw [if_neg hbetween]
    exact collect_of_advance_error hinterval htransform (Instant.lt_of_second_le_since hspan)
      hresult

end Plan

/-! ## All intervals -/

/-- Division in UTC, away from leap seconds, by an interval that reaches the end of the range or
passes it.  There is one civil time an interval after the start.  If the calendar covers it, the
range has one step, from end to end; and if not, it has none, but an error that shows what was
asked for. -/
theorem iterateRange_clamped (context : Context)
    (hz : ∀ unix, context.zone.offsetAt unix = 0) (interval : Interval)
    (hstart : start.isLeapSecond = false)
    (hspan : Span.second.nanos ≤ (stop.since start).nanos) :
    ∃ d, (∀ e, interval.Moves start.utc e ↔ e = d) ∧
      (stop.utc ≤ d →
        iterateRange context start stop (some interval) none =
          if Civil.first ≤ d ∧ d ≤ Civil.last then .ok [⟨0, start, stop⟩]
          else .error (.eval (.outOfRange (String.ofList
            (Plan.asked ⟨context, stop, some interval, none⟩ interval start))))) := by
  obtain ⟨d, hd, hcollect⟩ :=
    @Plan.exists_collect_eq start interval ⟨context, stop, some interval, none⟩ hz rfl rfl hstart
      hspan
  refine ⟨d, hd, ?_⟩
  intro hle
  have hlt := Instant.lt_of_second_le_since hspan
  rw [iterateRange_eq, if_neg fun h => Instant.not_le.2 h.2 (Instant.le_of_lt hlt)]
  exact hcollect hle

/-- Midnight of 30 November 2023 in UTC. -/
def november30 : Instant :=
  Instant.ofSeconds 1701302400

/-- Midnight of 29 February 2024 in UTC, where a quarter of a year leads from there. -/
def february29 : Instant :=
  Instant.ofSeconds 1709164800

/-- A quarter after the last day of November is the last day of February. -/
theorem iterateRange_clamped_quarter :
    parseInterval "1q" = .ok (some (.calendar 3)) ∧
      Span.second.nanos ≤ (february29.since november30).nanos ∧
      Interval.Moves (.calendar 3) november30.utc february29.utc ∧
      iterateRange { now := november30, zone := Zone.utc } november30 february29
        (some (.calendar 3)) none = .ok [⟨0, november30, february29⟩] := by
  have hspan : Span.second.nanos ≤ (february29.since november30).nanos := by decide
  have hmoves : Interval.Moves (.calendar 3) november30.utc february29.utc :=
    ⟨⟨by decide +kernel, by decide +kernel⟩, by decide +kernel⟩
  obtain ⟨d, hd, hsteps⟩ := iterateRange_clamped { now := november30, zone := Zone.utc }
    (fun _ => rfl) (.calendar 3) (by decide) hspan
  obtain rfl := (hd _).1 hmoves
  have hresult := hsteps (by decide)
  rw [if_pos (by decide +kernel)] at hresult
  exact ⟨rfl, hspan, hmoves, hresult⟩

/-- The same date 300000 years later, beyond the calendar. -/
def beyondCalendar : Civil :=
  (Date.ofYMD 302023 11 30).at .midnight

/-- A step that passes the end of the range by far may leave the calendar. -/
theorem iterateRange_beyond_calendar :
    parseInterval "300000Y" = .ok (some (.calendar 3600000)) ∧
      Span.second.nanos ≤ (february29.since november30).nanos ∧
      Interval.Moves (.calendar 3600000) november30.utc beyondCalendar ∧
      february29.utc ≤ beyondCalendar ∧
      iterateRange { now := november30, zone := Zone.utc } november30 february29
        (some (.calendar 3600000)) none = .error (.eval (.outOfRange "3600000M")) := by
  have hmoves : Interval.Moves (.calendar 3600000) november30.utc beyondCalendar :=
    ⟨⟨by decide +kernel, by decide +kernel⟩, by decide +kernel⟩
  have hmoved : (Zone.utc.civil november30).addMonths? 3600000 = none := by decide +kernel
  have herror : shift Zone.utc november30 3600000 Period.month.letter =
      .error (.outOfRange "3600000M") := by
    have htext : String.ofList (signed 3600000 ++ ['M']) = "3600000M" := by decide +kernel
    rw [shift_letter (by decide +kernel), ← htext]
    simp only [Period.measure, Int.natCast_one, Int.mul_one, hmoved]
    rfl
  refine ⟨rfl, by decide, hmoves, by decide +kernel, ?_⟩
  rw [iterateRange_eq, if_neg (by decide)]
  exact Plan.collect_of_advance_error rfl rfl (by decide) herror

end Almanac
