import Almanac.Instant

/-!
# Time zones

A zone says which civil time an instant has.  It is a list of transitions: before the
first of them one regime holds, after each of them the regime that it begins.  A
regime is an offset from UTC and the letters that name it.

A civil time may be had by one instant, by two (clocks were set back) or by none
(clocks were set forward).  `Zone.localize?` chooses: the earliest instant, or where
there is none, the earliest that shows one hour later.

Main definitions:

- `Zone.offsetAt`, `Zone.civil`: the offset at an instant and the civil time it has.
- `Zone.preimages`: the seconds at which a civil second is shown.
- `Zone.earliest?`, `Zone.localize?`: from civil time to instant.
- `Zone.fixed?`: the zone with one offset for all time.
-/

namespace Almanac

open Text

/-- An offset from UTC, in force for a while, and its name. -/
structure Regime where
  /-- Seconds by which civil time is ahead of UTC. -/
  offset : Int
  /-- The letters that stand for this offset. -/
  abbreviation : String
  offset_bound : -86400 < offset ∧ offset < 86400 := by decide
deriving DecidableEq, Repr

/-- No offset at all is within the bounds. -/
theorem Regime.zero_bound : (-86400 : Int) < 0 ∧ (0 : Int) < 86400 := by
  decide

/-- The second at which a regime begins. -/
structure Transition where
  /-- The first second of the regime, counted as in `Instant.unix`. -/
  start : Int
  /-- The regime that holds from then on. -/
  regime : Regime
deriving DecidableEq, Repr

/-- A time zone. -/
structure Zone where
  /-- The name by which the zone is chosen. -/
  name : String
  /-- The regime before the first transition. -/
  initial : Regime
  /-- The transitions, in order of time. -/
  transitions : List Transition
deriving DecidableEq, Repr

namespace Zone

/-- The regime in force at a second, among `transitions` that follow the regime `current`. -/
def regimeAmong (current : Regime) (unix : Int) : List Transition → Regime
  | [] => current
  | t :: later => if t.start ≤ unix then regimeAmong t.regime unix later else current

/-- The regime in force at a second. -/
def regimeAt (z : Zone) (unix : Int) : Regime :=
  regimeAmong z.initial unix z.transitions

/-- The offset from UTC in force at a second. -/
def offsetAt (z : Zone) (unix : Int) : Int :=
  (z.regimeAt unix).offset

/-- The civil time that an instant has in a zone. -/
def civil (z : Zone) (i : Instant) : Civil :=
  { i.utc with seconds := i.utc.seconds + z.offsetAt i.unix }

/-- The offsets that a zone ever uses. -/
def offsets (z : Zone) : List Int :=
  (z.initial.offset :: z.transitions.map (·.regime.offset)).eraseDups

/-- The seconds of UTC at which the clocks of a zone show a civil second. -/
def preimages (z : Zone) (seconds : Int) : List Int :=
  (z.offsets.map (seconds - ·)).filter fun unix => unix + z.offsetAt unix == seconds

/-- The earliest instant that has the civil time `c`. -/
def earliest? (z : Zone) (c : Civil) : Option Instant :=
  (z.preimages c.seconds).min?.bind fun unix => Instant.ofUtc? { c with seconds := unix }

/-- The instant meant by the civil time `c`: the earliest that has it, or if there is
none, the earliest that shows one hour later. -/
def localize? (z : Zone) (c : Civil) : Option Instant :=
  match z.earliest? c with
  | some i => some i
  | none => (c.add? Span.hour).bind z.earliest?

/-! ## Zones with one offset -/

/-- An offset from UTC as a sign, hours, minutes and, if there are any, seconds. -/
def offsetText (offset : Int) : List Char :=
  let sign := if offset < 0 then '-' else '+'
  let n := offset.natAbs
  let minutes := sign :: padded 2 (n / 3600) ++ ':' :: padded 2 (n / 60 % 60)
  if n % 60 = 0 then minutes else minutes ++ ':' :: padded 2 (n % 60)

/-- The regime of an offset that has no letters of its own. -/
def offsetRegime? (offset : Int) : Option Regime :=
  if h : -86400 < offset ∧ offset < 86400 then
    some
      { offset := offset
        abbreviation := String.ofList (offsetText offset)
        offset_bound := h }
  else none

/-- The zone that has the given offset for all time, if it is less than a day. -/
def fixed? (offset : Int) : Option Zone :=
  (offsetRegime? offset).map fun regime =>
    { name := regime.abbreviation, initial := regime, transitions := [] }

/-- The zone without an offset, named by its offset as every fixed zone is. -/
def zero : Zone where
  name := "+00:00"
  initial := { offset := 0, abbreviation := "+00:00", offset_bound := Regime.zero_bound }
  transitions := []

/-- Every offset in force is among the offsets of the zone. -/
theorem offsetAt_mem_offsets (z : Zone) (unix : Int) : z.offsetAt unix ∈ z.offsets := by
  have among : ∀ (ts : List Transition) (current : Regime),
      (regimeAmong current unix ts).offset ∈ current.offset :: ts.map (·.regime.offset) := by
    intro ts
    induction ts with
    | nil => intro current; simp [regimeAmong]
    | cons t later ih =>
      intro current
      simp only [regimeAmong]
      split
      · exact List.mem_cons_of_mem _ (ih t.regime)
      · simp
  simpa [offsets, offsetAt, regimeAt] using among z.transitions z.initial

/-- A second shows a civil second exactly if it is among the preimages. -/
theorem mem_preimages_iff {z : Zone} {seconds unix : Int} :
    unix ∈ z.preimages seconds ↔ unix + z.offsetAt unix = seconds := by
  simp only [preimages, List.mem_filter, List.mem_map, beq_iff_eq]
  constructor
  · exact fun h => h.2
  · intro h
    exact ⟨⟨z.offsetAt unix, z.offsetAt_mem_offsets unix, by omega⟩, h⟩

end Zone

end Almanac
