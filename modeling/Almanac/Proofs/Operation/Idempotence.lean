import Almanac.Proofs.Operation.Tiling
import Almanac.Proofs.Zone.Localize
import Almanac.Zone.Table

/-!
# Boundary operations, twice

An operation to a boundary leads nowhere else when it is applied again.  On the wall this is
plain, because the boundary of a period lies in the period.  The zone may move what is found:
back to the first instant that shows the boundary, which shows it all the same, or an hour
forward out of a gap.  An hour after a first nanosecond the period is still the same, or the
hour has led to the first nanosecond of another one; an hour after a last nanosecond it is the
next.

Main results:

- Theorem `Period.boundary?_boundary?`: the boundary of a period is its own boundary.
- Theorem `Period.boundary?_first_add_hour`: what the boundary is an hour later.
- Theorem `boundary_idempotent`: in every zone, the operations are idempotent.
-/

namespace Almanac

variable {start : WeekStart} {z : Zone} {edge : Edge} {p : Period} {length : Nat} {b c : Civil}
  {i r : Instant}

/-! ## On the wall -/

namespace Period

/-- The last second of a period is in the period. -/
theorem number_begins_succ_sub_one {seconds : Int} :
    p.number start (p.begins start (p.number start seconds + 1) - 1) =
      p.number start seconds := by
  obtain ⟨hbegun, hnext⟩ := number_eq_iff.1 (Eq.refl (p.number start seconds))
  exact number_eq_iff.2 ⟨by omega, by omega⟩

/-- The boundary of a period is its own boundary. -/
theorem boundary?_boundary? (h : p.boundary? start edge c = some b) :
    p.boundary? start edge b = some b := by
  cases edge with
  | first =>
      obtain ⟨rfl, hrange⟩ := boundary?_first_eq_some_iff.1 h
      exact boundary?_first_eq_some_iff.2 ⟨Civil.ext (begins_number_begins _).symm rfl, hrange⟩
  | last =>
      obtain ⟨rfl, hrange⟩ := boundary?_last_eq_some_iff.1 h
      have hnumber : p.number start (p.lastMoment start (p.number start c.seconds)).seconds =
          p.number start c.seconds := number_begins_succ_sub_one
      rw [boundary?_last_eq_some_iff, hnumber]
      exact ⟨rfl, hrange⟩

/-- An hour after the start of a day the day is the same; an hour after the start of a shorter
period of the clock, another one starts. -/
theorem floorTo_add_hour (hlength : p.clockLength? = some length) (c : Civil) :
    floorTo length ((floorTo length c).add Span.hour) = floorTo length c ∨
      floorTo length ((floorTo length c).add Span.hour) = (floorTo length c).add Span.hour := by
  have hseconds := Civil.seconds_add_hour (floorTo length c)
  rcases clockLength?_cases hlength with rfl | hshort
  · left
    apply Civil.ext
    · simp only [floorTo] at hseconds ⊢
      omega
    · rfl
  · right
    apply Civil.ext
    · rcases hshort with rfl | rfl | rfl
      all_goals
        simp only [floorTo] at hseconds ⊢
        omega
    · exact (Civil.nanos_add_hour (floorTo length c)).symm

/-- An hour after midnight the date is still the same. -/
theorem date_add_hour (d : Date) : ((d.at .midnight).add Span.hour).date = d := by
  have hseconds := Civil.seconds_add_hour (d.at .midnight)
  simp only [Date.at, TimeOfDay.midnight, secondsPerDay] at hseconds
  simp only [Civil.date, Date.at, TimeOfDay.midnight, hseconds, secondsPerDay]
  cases d
  simp only [Date.mk.injEq]
  omega

/-- An hour after the first nanosecond of a period, this is still the first nanosecond, or
another period has just begun. -/
theorem boundary?_first_add_hour (h : p.boundary? start .first c = some b) :
    p.boundary? start .first (b.add Span.hour) = some b ∨
      p.boundary? start .first (b.add Span.hour) = some (b.add Span.hour) := by
  cases hlength : p.clockLength? with
  | some length =>
      simp only [boundary?, hlength, Option.some.injEq] at h ⊢
      subst h
      exact floorTo_add_hour hlength c
  | none =>
      -- The first date of a period is its own, and the hour does not leave it.
      have hown := boundary?_boundary? h
      simp only [boundary?, hlength] at h hown ⊢
      obtain ⟨d, -, rfl⟩ := Option.map_eq_some_iff.1 h
      rw [Civil.date_at] at hown
      rw [date_add_hour]
      exact .inl hown

end Period

/-! ## Twice -/

/-- In every zone, an operation to the start of a period that has led to an instant leads to it
again from there, also where clocks skip the boundary or show it twice.  So does an operation
to the end of a period, if the clocks show that end. -/
theorem boundary_idempotent (start : WeekStart) (z : Zone) {o : Operation}
    (ho : boundaries.lookup o.op = some (edge, p)) {i r : Instant}
    (h : o.apply start z i = .ok r) :
    (edge = .first → o.apply start z r = .ok r) ∧
      (edge = .last →
        (∃ c j, p.boundary? start edge (z.civil i) = some c ∧ z.earliest? c = some j) →
          o.apply start z r = .ok r) := by
  obtain ⟨hi, b, hb, hr⟩ := (Operation.apply_eq_ok_iff_of_lookup ho).1 h
  have hown := Period.boundary?_boundary? hb
  have hcovered := Zone.inRange_civil_of_localize? (Period.inRange_of_boundary? hi hb) hr
  have hshown (hcivil : z.civil r = b) : o.apply start z r = .ok r :=
    (Operation.apply_eq_ok_iff_of_lookup ho).2 ⟨hcovered, b, hcivil ▸ hown, hr⟩
  constructor
  · rintro rfl
    rcases Zone.civil_of_localize?_cases hr with hcivil | ⟨hcivil, hlater⟩
    · exact hshown hcivil
    · rw [Operation.apply_eq_ok_iff_of_lookup ho, and_iff_right hcovered, hcivil]
      rcases Period.boundary?_first_add_hour hb with hsame | hnext
      · exact ⟨b, hsame, hr⟩
      · exact ⟨_, hnext, hlater⟩
  · rintro - ⟨c, j, hc, hj⟩
    obtain rfl : b = c := Option.some.inj (hb.symm.trans hc)
    obtain rfl : j = r := Option.some.inj ((Zone.localize?_of_earliest? hj).symm.trans hr)
    exact hshown (Zone.earliest?_eq_some_iff.1 hj).1

/-- Noon of the day on which São Paulo sets its clocks forward at midnight. -/
def springForward : Instant :=
  Instant.ofSeconds 1541332800

/-- The first moment of that day, one o'clock. -/
def afterMidnight : Instant :=
  Instant.ofSeconds 1541300400

/-- The last nanosecond of the month that the day is in. -/
def endOfNovember : Instant :=
  ⟨⟨1543629599, 999999999, TimeOfDay.endOfDay.nanos_lt⟩, by decide⟩

/-- The clocks skip a midnight: the start of the day is an hour later, and stays there. -/
theorem boundary_idempotent_saoPaulo :
    (Operation.mk "startofday" "").apply .monday Zone.saoPaulo springForward =
        .ok afterMidnight ∧
      (Operation.mk "startofday" "").apply .monday Zone.saoPaulo afterMidnight =
        .ok afterMidnight ∧
      (Operation.mk "endofmonth" "").apply .monday Zone.saoPaulo springForward =
        .ok endOfNovember ∧
      (Operation.mk "endofmonth" "").apply .monday Zone.saoPaulo endOfNovember =
        .ok endOfNovember := by
  have hfirst : (Operation.mk "startofday" "").apply .monday Zone.saoPaulo springForward =
      .ok afterMidnight :=
    (Operation.apply_eq_ok_iff_of_lookup rfl).2 ⟨by decide +kernel, _, rfl, by decide +kernel⟩
  have hlast : (Operation.mk "endofmonth" "").apply .monday Zone.saoPaulo springForward =
      .ok endOfNovember :=
    (Operation.apply_eq_ok_iff_of_lookup rfl).2 ⟨by decide +kernel, _, rfl, by decide +kernel⟩
  refine ⟨hfirst, (boundary_idempotent .monday Zone.saoPaulo rfl hfirst).1 rfl, hlast, ?_⟩
  exact (boundary_idempotent .monday Zone.saoPaulo rfl hlast).2 rfl
    ⟨_, endOfNovember, rfl, by decide +kernel⟩

end Almanac
