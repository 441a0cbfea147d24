import Almanac.Operation.Apply
import Almanac.Proofs.Operation.Period
import Almanac.Proofs.Zone.Fixed

/-!
# Boundary operations tile the time

In a zone with one offset the operations to the first and the last nanosecond of a period
cut the time into pieces: an instant lies between the two boundaries of its period, two
instants lie in one period exactly if they have the same boundaries, and the nanosecond
after a period begins the next one.

Main definitions:

- `Period.name`, `Edge.of`: the operation that leads to an edge of a period.
- `Period.Covered`: both ends of a period are instants that the calendar covers.

Main results:

- Theorem `Edge.apply_eq_ok_iff`: what the operation leads to.
- Theorem `Period.Covered.apply`: from all instants of a period it leads to the ends.
- Theorem `boundaries_tile`: the boundaries of a unit tile the time.
-/

namespace Almanac

variable {offset k : Int} {z : Zone} {start : WeekStart} {edge : Edge} {p : Period}
  {i j s e n : Instant}

/-! ## The operations -/

/-- The name of a unit in the operations that lead to its boundaries. -/
def Period.name : Period → String
  | second => "second"
  | minute => "minute"
  | hour => "hour"
  | day => "day"
  | week => "week"
  | month => "month"
  | quarter => "quarter"
  | year => "year"

/-- The operation that leads to an edge of a period. -/
def Edge.of (edge : Edge) (p : Period) : Operation where
  op := (match edge with | first => "startof" | last => "endof") ++ p.name
  value := ""

/-- The table of boundaries has every edge of every unit under its name. -/
theorem lookup_op_of (edge : Edge) (p : Period) :
    boundaries.lookup (edge.of p).op = some (edge, p) := by
  cases edge <;> cases p <;> decide

/-- No operation of another kind has the name of a boundary. -/
theorem not_mem_of_lookup_boundaries {op : String} (h : boundaries.lookup op = some (edge, p)) :
    op ∉ ["+", "-", "day", "time", "round", "trunc"] := by
  have hnone : ∀ other ∈ ["+", "-", "day", "time", "round", "trunc"],
      boundaries.lookup other = none := by decide
  intro hop
  rw [hnone op hop] at h
  cases h

/-- An operation that names a boundary begins and ends with the zone. -/
theorem Operation.apply_of_lookup {o : Operation} (ho : boundaries.lookup o.op = some (edge, p)) :
    o.apply start z i = z.consult i >>= fun c => boundary start o.op c >>= z.localize := by
  have hop := not_mem_of_lookup_boundaries ho
  simp only [List.mem_cons, List.not_mem_nil, or_false, not_or] at hop
  obtain ⟨hplus, hminus, hday, htime, hround, htrunc⟩ := hop
  simp only [Operation.apply, Operation.target, hplus, hminus, hday, htime, hround, htrunc,
    or_self, false_and, if_false]

/-- An operation that names a boundary leads to the instant that the zone means by it. -/
theorem Operation.apply_eq_ok_iff_of_lookup {o : Operation}
    (ho : boundaries.lookup o.op = some (edge, p)) :
    o.apply start z i = .ok s ↔
      (z.civil i).InRange ∧
        ∃ c, p.boundary? start edge (z.civil i) = some c ∧ z.localize? c = some s := by
  rw [Operation.apply_of_lookup ho, Zone.consult_bind_eq_ok_iff, Zone.bind_localize_eq_ok_iff]
  simp only [boundary, ho, orOutOfRange_eq_ok_iff]

/-- The operation leads to the instant that the zone means by the boundary. -/
theorem Edge.apply_eq_ok_iff :
    (edge.of p).apply start z i = .ok s ↔
      (z.civil i).InRange ∧
        ∃ c, p.boundary? start edge (z.civil i) = some c ∧ z.localize? c = some s :=
  Operation.apply_eq_ok_iff_of_lookup (lookup_op_of edge p)

/-! ## Periods of instants -/

/-- The number of the period that an instant lies in. -/
def Period.numberAt (start : WeekStart) (z : Zone) (p : Period) (i : Instant) : Int :=
  p.number start (z.civil i).seconds

/-- The first and the last nanosecond of a period are had by the instants `s` and `e`, and the
calendar covers what the clocks show at both ends. -/
structure Period.Covered (start : WeekStart) (z : Zone) (p : Period) (k : Int)
    (s e : Instant) : Prop where
  first : z.civil s = p.firstMoment start k
  last : z.civil e = p.lastMoment start k
  inRange : (z.civil s).InRange ∧ (z.civil e).InRange

section Fixed

variable (hz : Zone.fixed? offset = some z)
include hz

namespace Period

omit hz in
/-- The calendar covers what the clocks show at every instant of a period. -/
theorem Covered.inRange_civil (h : p.Covered start z k s e) (hj : p.numberAt start z j = k) :
    (z.civil j).InRange := by
  have hfirst : (z.civil s).seconds = p.begins start k := congrArg Civil.seconds h.first
  have hlast : (z.civil e).seconds = p.begins start (k + 1) - 1 := congrArg Civil.seconds h.last
  obtain ⟨hbegun, hlasts⟩ := number_eq_iff.1 hj
  exact Civil.inRange_of_le h.inRange.1 h.inRange.2 (by omega) (by omega)

/-- The operations lead from every instant of a period to its ends. -/
theorem Covered.apply (h : p.Covered start z k s e) (hj : p.numberAt start z j = k) :
    (Edge.first.of p).apply start z j = .ok s ∧ (Edge.last.of p).apply start z j = .ok e := by
  have hrange := h.inRange_civil hj
  have hfirst : p.boundary? start .first (z.civil j) = some (z.civil s) := by
    rw [boundary?_first_eq_some_iff, ← numberAt, hj]
    exact ⟨h.first, fun _ => h.inRange.1⟩
  have hlast : p.boundary? start .last (z.civil j) = some (z.civil e) := by
    rw [boundary?_last_eq_some_iff, ← numberAt, hj, ← h.first]
    exact ⟨h.last, fun _ => h.inRange⟩
  exact ⟨Edge.apply_eq_ok_iff.2 ⟨hrange, _, hfirst, Zone.localize?_civil hz s⟩,
    Edge.apply_eq_ok_iff.2 ⟨hrange, _, hlast, Zone.localize?_civil hz e⟩⟩

/-- The instants of a period are those between its ends. -/
theorem Covered.between_iff (h : p.Covered start z k s e) (hj : j.utc.isLeapSecond = false) :
    s ≤ j ∧ j ≤ e ↔ p.numberAt start z j = k := by
  have hc : (z.civil j).isLeapSecond = false := hj
  rw [← Zone.civil_le_civil_iff hz, ← Zone.civil_le_civil_iff hz, h.first, h.last, numberAt,
    number_eq_iff_between hc]

/-- Where the operation leads to a last nanosecond, it is that of the period. -/
theorem civil_of_apply_last (hi : i.utc.isLeapSecond = false)
    (h : (Edge.last.of p).apply start z i = .ok e) :
    z.civil e = p.lastMoment start (p.numberAt start z i) := by
  obtain ⟨-, l, hl, he⟩ := Edge.apply_eq_ok_iff.1 h
  obtain ⟨rfl, -⟩ := boundary?_last_eq_some_iff.1 hl
  have hc : (z.civil i).isLeapSecond = false := hi
  -- The boundary lies after an instant, so the zone does not look for it an hour later.
  have hle := ((number_eq_iff_between hc).1 (Eq.refl (p.numberAt start z i))).2
  exact Zone.civil_of_localize? hz rfl hle he

/-- The nanosecond after a period is the first of the next one. -/
theorem Covered.civil_add? (h : p.Covered start z k s e) (hn : e.add? ⟨1⟩ = some n) :
    z.civil n = p.firstMoment start (k + 1) := by
  have hseconds : (z.civil e).seconds = p.begins start (k + 1) - 1 :=
    congrArg Civil.seconds h.last
  have hnanos : e.utc.nanos = 999999999 := congrArg Civil.nanos h.last
  have he : e.isLeapSecond = false := by
    rw [Instant.isLeapSecond, Civil.isLeapSecond_eq_false_iff, hnanos]
    decide
  obtain ⟨hleap, htotal⟩ := (Instant.add?_eq_some_iff he).1 hn
  have hlt := Civil.isLeapSecond_eq_false_iff.1 hleap
  rw [Zone.seconds_civil hz] at hseconds
  simp only [Instant.nanos, Civil.toNanos, nanosPerSecond, hnanos] at htotal hlt
  apply Civil.ext
  · rw [Zone.seconds_civil hz]
    simp only [firstMoment]
    omega
  · rw [Zone.nanos_civil]
    simp only [firstMoment]
    omega

/-- From the first nanosecond of a period the operation leads nowhere else. -/
theorem apply_first_of_civil (hn : z.civil n = p.firstMoment start k)
    (hrange : (z.civil n).InRange) :
    (Edge.first.of p).apply start z n = .ok n := by
  have hfirst : p.boundary? start .first (z.civil n) = some (z.civil n) := by
    refine boundary?_first_eq_some_iff.2 ⟨?_, fun _ => hrange⟩
    rw [hn]
    exact Civil.ext (begins_number_begins k).symm rfl
  exact Edge.apply_eq_ok_iff.2 ⟨hrange, _, hfirst, Zone.localize?_civil hz n⟩

end Period

end Fixed

/-! ## Tiling -/

/-- The boundaries of a unit tile the time, in a zone with one offset.  Where the calendar
covers the period of an instant, the operations lead to its first and last nanosecond; an
instant lies between these exactly if the operations lead from it to the same two; and the
nanosecond after them begins a period. -/
theorem boundaries_tile (hz : Zone.fixed? offset = some z) (start : WeekStart) (p : Period)
    {i s e : Instant} (hi : i.utc.isLeapSecond = false)
    (h : p.Covered start z (p.numberAt start z i) s e) :
    (Edge.first.of p).apply start z i = .ok s ∧ (Edge.last.of p).apply start z i = .ok e ∧
      (s ≤ i ∧ i ≤ e) ∧
      (∀ j : Instant, j.utc.isLeapSecond = false →
        ((s ≤ j ∧ j ≤ e) ↔ (Edge.first.of p).apply start z j = .ok s ∧
          (Edge.last.of p).apply start z j = .ok e)) ∧
      ∀ n, e.add? ⟨1⟩ = some n → (z.civil n).InRange →
        (Edge.first.of p).apply start z n = .ok n := by
  obtain ⟨hs, he⟩ := h.apply hz rfl
  refine ⟨hs, he, (h.between_iff hz hi).2 rfl, ?_, ?_⟩
  · intro j hj
    rw [h.between_iff hz hj]
    constructor
    · exact h.apply hz
    · -- The last boundary alone says which period it is.
      rintro ⟨-, hlast⟩
      have hmoment := Period.civil_of_apply_last hz hj hlast
      rw [h.last] at hmoment
      exact (Period.number_eq_of_lastMoment_eq hmoment).symm
  · intro n hn hrange
    exact Period.apply_first_of_civil hz (h.civil_add? hz hn) hrange

/-- The last half hour of a leap February, five hours behind UTC. -/
theorem boundaries_tile_february :
    ∃ z s e, Zone.fixed? (-18000) = some z ∧
      (Instant.ofSeconds 1709267400).utc.isLeapSecond = false ∧
      Period.month.Covered .sunday z
        (Period.month.numberAt .sunday z (Instant.ofSeconds 1709267400)) s e ∧
      (Edge.first.of .month).apply .sunday z (Instant.ofSeconds 1709267400) = .ok s ∧
      (Edge.last.of .month).apply .sunday z (Instant.ofSeconds 1709267400) = .ok e ∧
      (s ≤ Instant.ofSeconds 1709267400 ∧ Instant.ofSeconds 1709267400 ≤ e) ∧
      (∀ j : Instant, j.utc.isLeapSecond = false →
        ((s ≤ j ∧ j ≤ e) ↔ (Edge.first.of .month).apply .sunday z j = .ok s ∧
          (Edge.last.of .month).apply .sunday z j = .ok e)) ∧
      ∀ n, e.add? ⟨1⟩ = some n → (z.civil n).InRange →
        (Edge.first.of .month).apply .sunday z n = .ok n := by
  have hz : Zone.fixed? (-18000) =
      some { name := "-05:00"
             initial := { offset := -18000, abbreviation := "-05:00" }
             transitions := [] } := by decide +kernel
  have hi : (Instant.ofSeconds 1709267400).utc.isLeapSecond = false := by decide
  have hcovered : Period.month.Covered .sunday
      { name := "-05:00"
        initial := { offset := -18000, abbreviation := "-05:00" }
        transitions := [] } (12 * 2024 + 1) (Instant.ofSeconds 1706763600)
      ⟨⟨1709269199, 999999999, by decide⟩, by decide⟩ :=
    { first := by decide +kernel
      last := by decide +kernel
      inRange := by decide +kernel }
  exact ⟨_, _, _, hz, hi, hcovered, boundaries_tile hz .sunday .month hi hcovered⟩

end Almanac
