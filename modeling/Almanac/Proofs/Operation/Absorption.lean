import Almanac.Proofs.Operation.Idempotence
import Mathlib.Data.List.Chain

/-!
# Boundaries of finer and coarser units

The periods of a coarser unit are made up of whole periods of a finer one.  So the first and the
last nanosecond of a finer period lie in the same coarser period as all of it does, and to go to
one of them first changes nothing in where the operations of the coarser unit lead.  Months do not
begin with weeks, so that the units form two rows and not one.

Main definitions:

- `Period.rows`, `Period.Finer`: the units from fine to coarse.
- `Period.Determines`: the period of one unit says which period of the other it is.

Main results:

- Theorem `Period.Finer.determines`: the period of a finer unit determines that of a coarser.
- Theorem `Period.number_of_boundary?`: the boundary of a period lies in the period.
- Theorem `Period.boundary?_congr`: all times of a period have the same boundaries.
- Theorem `boundary_absorbs`: in zones with one offset, a coarser boundary absorbs a finer one.
-/

namespace Almanac

variable {start : WeekStart} {z : Zone} {edge edge' : Edge} {p q r : Period} {b c : Civil}

namespace Period

/-! ## Fine and coarse -/

/-- The units in two rows, in each of which a period is made up of whole periods of the unit
before it. -/
def rows : List (List Period) :=
  [[second, minute, hour, day, month, quarter, year], [second, minute, hour, day, week]]

/-- A unit comes before another one in a row, or is the same. -/
def Finer (p q : Period) : Prop :=
  p = q ∨ ∃ row ∈ rows, [p, q].Sublist row

instance (p q : Period) : Decidable (p.Finer q) :=
  inferInstanceAs (Decidable (_ ∨ _))

/-- Seconds in one period of `p` are in one period of `q`. -/
def Determines (start : WeekStart) (p q : Period) : Prop :=
  ∀ a b, p.number start a = p.number start b → q.number start a = q.number start b

/-- What a unit determines, it determines through any unit between. -/
theorem Determines.trans (hpq : Determines start p q) (hqr : Determines start q r) :
    Determines start p r :=
  fun a b h => hqr a b (hpq a b h)

instance : Trans (Determines start) (Determines start) (Determines start) :=
  ⟨Determines.trans⟩

/-- The number of a period that is computed from another one. -/
theorem determines_of_number_eq {f : Int → Int}
    (h : ∀ seconds, q.number start seconds = f (p.number start seconds)) :
    Determines start p q := by
  intro a b hab
  rw [h, h, hab]

/-- Of two units of the clock, the one whose length divides the other determines it. -/
theorem determines_of_dvd {short long : Nat} (hp : p.clockLength? = some short)
    (hq : q.clockLength? = some long) (hdvd : short ∣ long) : Determines start p q := by
  obtain ⟨count, rfl⟩ := hdvd
  apply determines_of_number_eq (f := (· / count))
  intro seconds
  simp only [number, hp, hq, Int.natCast_mul]
  exact (Int.ediv_ediv_of_nonneg (Int.natCast_nonneg short)).symm

/-- The day determines all units that are counted in days. -/
theorem determines_of_day (hq : q.clockLength? = none) : Determines start day q := by
  have hday : day.clockLength? = some secondsPerDay := rfl
  apply determines_of_number_eq (f := fun k => q.numberOfDay start ⟨k⟩)
  intro seconds
  simp only [number, hq, hday]

/-- Each unit in a row determines the next. -/
theorem isChain_determines (start : WeekStart) :
    ∀ row ∈ rows, row.IsChain (Determines start) := by
  have hclock : Determines start second minute ∧ Determines start minute hour ∧
      Determines start hour day :=
    ⟨determines_of_dvd rfl rfl (by decide), determines_of_dvd rfl rfl (by decide),
      determines_of_dvd rfl rfl (by decide)⟩
  have hmonth : Determines start day month := determines_of_day rfl
  have hweek : Determines start day week := determines_of_day rfl
  have hquarter : Determines start month quarter :=
    determines_of_number_eq (f := (· / 3)) fun _ => rfl
  have hyear : Determines start quarter year := by
    apply determines_of_number_eq (f := (· / 4))
    intro seconds
    simp only [number, clockLength?, numberOfDay]
    omega
  simp [rows, hclock, hmonth, hweek, hquarter, hyear]

/-- The period of a finer unit says which period of the coarser one it lies in. -/
theorem Finer.determines (h : p.Finer q) (start : WeekStart) : Determines start p q := by
  rcases h with rfl | ⟨row, hrow, hbefore⟩
  · exact fun _ _ => id
  · have hpairs := List.isChain_iff_pairwise.1 (isChain_determines start row hrow)
    exact List.pairwise_iff_forall_sublist.1 hpairs hbefore

/-! ## Boundaries on the wall -/

/-- The boundary of a period lies in the period. -/
theorem number_of_boundary? (h : p.boundary? start edge c = some b) :
    p.number start b.seconds = p.number start c.seconds := by
  cases edge with
  | first =>
      obtain ⟨rfl, -⟩ := boundary?_first_eq_some_iff.1 h
      obtain ⟨hbegun, hnext⟩ := number_eq_iff.1 (Eq.refl (p.number start c.seconds))
      exact number_eq_iff.2 ⟨Int.le_refl _, Int.lt_of_le_of_lt hbegun hnext⟩
  | last =>
      obtain ⟨rfl, -⟩ := boundary?_last_eq_some_iff.1 h
      exact number_begins_succ_sub_one

/-- All times of a period have the same boundaries. -/
theorem boundary?_congr (h : p.number start b.seconds = p.number start c.seconds) :
    p.boundary? start edge b = p.boundary? start edge c := by
  apply Option.ext
  intro found
  cases edge with
  | first => rw [boundary?_first_eq_some_iff, boundary?_first_eq_some_iff, h]
  | last => rw [boundary?_last_eq_some_iff, boundary?_last_eq_some_iff, h]

/-- The boundaries of a coarser period are the same from the boundary of a finer one. -/
theorem boundary?_of_finer (hfiner : p.Finer q) (h : p.boundary? start edge c = some b) :
    q.boundary? start edge' b = q.boundary? start edge' c :=
  boundary?_congr (hfiner.determines start _ _ (number_of_boundary? h))

end Period

/-! ## Instants -/

/-- In a zone with one offset, where the calendar covers what the clocks show at `i` and an instant
`v` has the boundary of the period of `i`, the operation to it leads to `v`, and from there the
operations to the boundaries of a coarser unit lead where they lead from `i`.  Where an instant has
the coarser boundary too, they lead to that. -/
theorem boundary_absorbs {offset : Int} (hz : Zone.fixed? offset = some z) (start : WeekStart)
    {o o' : Operation} (ho : boundaries.lookup o.op = some (edge, p))
    (ho' : boundaries.lookup o'.op = some (edge', q)) (hfiner : p.Finer q) {i v : Instant}
    (hi : (z.civil i).InRange) (hv : p.boundary? start edge (z.civil i) = some (z.civil v)) :
    o.apply start z i = .ok v ∧
      (∀ u, o'.apply start z v = .ok u ↔ o'.apply start z i = .ok u) ∧
      ∀ u, q.boundary? start edge' (z.civil i) = some (z.civil u) →
        o'.apply start z v = .ok u ∧ o'.apply start z i = .ok u := by
  have hsame : q.boundary? start edge' (z.civil v) = q.boundary? start edge' (z.civil i) :=
    Period.boundary?_of_finer hfiner hv
  have hcovered := Period.inRange_of_boundary? hi hv
  have hiff (u : Instant) : o'.apply start z v = .ok u ↔ o'.apply start z i = .ok u := by
    rw [Operation.apply_eq_ok_iff_of_lookup ho', Operation.apply_eq_ok_iff_of_lookup ho', hsame,
      and_iff_right hcovered, and_iff_right hi]
  refine ⟨?_, hiff, ?_⟩
  · exact (Operation.apply_eq_ok_iff_of_lookup ho).2 ⟨hi, _, hv, Zone.localize?_civil hz v⟩
  · intro u hu
    have hu : o'.apply start z i = .ok u :=
      (Operation.apply_eq_ok_iff_of_lookup ho').2 ⟨hi, _, hu, Zone.localize?_civil hz u⟩
    exact ⟨(hiff u).2 hu, hu⟩

/-- In the leap second of June 2015, which five hours behind UTC came at seven in the
evening. -/
def leapEvening : Instant :=
  ⟨⟨1435708799, 1375000000, by decide⟩, by decide⟩

/-- The last nanosecond of that hour, before the leap second. -/
def endOfLeapHour : Instant :=
  ⟨⟨1435708799, 999999999, TimeOfDay.endOfDay.nanos_lt⟩, by decide⟩

/-- The last nanosecond of that week, from Sunday to Saturday. -/
def endOfLeapWeek : Instant :=
  ⟨⟨1436072399, 999999999, TimeOfDay.endOfDay.nanos_lt⟩, by decide⟩

/-- In a leap second of an evening: the end of the week by way of the end of the hour, and the
start of the quarter. -/
theorem boundary_absorbs_leapSecond :
    ∃ z, Zone.fixed? (-18000) = some z ∧
      ((Edge.last.of .hour).apply .sunday z leapEvening = .ok endOfLeapHour ∧
        (Edge.last.of .week).apply .sunday z endOfLeapHour = .ok endOfLeapWeek ∧
        (Edge.last.of .week).apply .sunday z leapEvening = .ok endOfLeapWeek) ∧
      (Edge.first.of .quarter).apply .sunday z endOfLeapHour = .ok (.ofSeconds 1427864400) ∧
        (Edge.first.of .quarter).apply .sunday z leapEvening = .ok (.ofSeconds 1427864400) := by
  have hz : Zone.fixed? (-18000) =
      some { name := "-05:00"
             initial := { offset := -18000, abbreviation := "-05:00" }
             transitions := [] } := by decide +kernel
  have hweek := boundary_absorbs hz .sunday (lookup_op_of .last .hour) (lookup_op_of .last .week)
    (by decide) (i := leapEvening) (v := endOfLeapHour) (by decide +kernel) (by decide +kernel)
  have hquarter := boundary_absorbs hz .sunday (lookup_op_of .last .hour)
    (lookup_op_of .first .quarter) (by decide) (i := leapEvening) (v := endOfLeapHour)
    (by decide +kernel) (by decide +kernel)
  exact ⟨_, hz, ⟨hweek.1, hweek.2.2 _ (by decide +kernel)⟩, hquarter.2.2 _ (by decide +kernel)⟩

end Almanac
