import Almanac.Eval.Basic
import Almanac.Iteration.Interval

/-!
# Iteration over a range

A range is divided into steps of one interval, the last of which ends where the range
does.  Each step starts where the one before it ended.  A transform may give a step two
other ends, which changes what is reported but not where the next step starts.

An iteration is a plan, which stays as it is, and a progress, which each step moves on.
It is over after a step fails or breaks off, and when less than a second of the range is left.

Main definitions:

- `Plan`, `Progress`: what an iteration is about, and how far it has come.
- `Plan.piece?`: the next piece of the range, before any transform.
- `Plan.next`: the next outcome and the progress after it.
- `Plan.collect`, `iterateRange`: all steps, or the first error.
- Theorem `Plan.remaining_next_lt`: every step brings the iteration closer to its end.
-/

namespace Almanac

open Text

/-- One step of an iteration. -/
structure Step where
  /-- The number of steps before this one. -/
  index : Nat
  start : Instant
  stop : Instant
deriving DecidableEq, Repr

/-- What an iteration is about. -/
structure Plan where
  context : Context
  /-- Where the range ends. -/
  stop : Instant
  /-- The length of the steps; without it, one step covers the range. -/
  interval : Option Interval
  /-- What is reported instead of the two ends of a step. -/
  transform : Option Transform

/-- How far an iteration has come. -/
structure Progress where
  /-- Where the next step starts. -/
  current : Instant
  /-- The number of steps so far. -/
  index : Nat := 0
  /-- Whether the iteration is over. -/
  done : Bool := false

namespace Plan

/-! ## One step -/

/-- The text shown for a step from `i` that would leave the calendar. -/
def overflowText (plan : Plan) (i : Instant) (span : Span) : List Char :=
  (plan.context.zone.civil i).textWith 'T' ++
    (plan.context.zone.regimeAt i.unix).abbreviation.toList ++ [' ', '+', ' '] ++ span.text

/-- One interval after `i`. -/
def advance (plan : Plan) (interval : Interval) (i : Instant) : Except EvalError Instant :=
  match interval with
  | .fixed span => orOutOfRange (plan.overflowText i span) (i.add? span)
  | .calendar months => shift plan.context.zone i months 'M'

/-- The next piece of the range, if there is one.  A piece that would be shorter than a
second is none; only then is it asked whether there were too many. -/
def piece? (plan : Plan) (p : Progress) : Option (Except IterationError (Instant × Instant)) :=
  if p.done then none
  else
    match plan.interval with
    | none => some (.ok (p.current, plan.stop))
    | some interval =>
      if plan.stop ≤ p.current then none
      else
        match plan.advance interval p.current with
        | .error e => some (.error (.eval e))
        | .ok reached =>
          let stop := reached.earlier plan.stop
          if (stop.since p.current).nanos < Span.second.nanos then none
          else if maxIterations ≤ p.index then
            some (.error (.tooManyIterations maxIterations))
          else some (.ok (p.current, stop))

/-- The step that is reported for a piece of the range. -/
def report (plan : Plan) (index : Nat) (start stop : Instant) : Except EvalError Step :=
  match plan.transform with
  | none => .ok { index, start, stop }
  | some t => do
    let (newStart, newStop) ← evaluateTransform plan.context t start stop index
    return { index := index, start := newStart, stop := newStop }

/-- The next outcome, which is none once the iteration is over, and the progress after
it.  An error is the last outcome. -/
def next (plan : Plan) (p : Progress) : Option (Except IterationError Step) × Progress :=
  match plan.piece? p with
  | none => (none, { p with done := true })
  | some (.error e) => (some (.error e), { p with done := true })
  | some (.ok (start, stop)) =>
    match plan.report p.index start stop with
    | .error e => (some (.error (.eval e)), { current := stop, index := p.index + 1, done := true })
    | .ok step =>
      (some (.ok step),
        { current := stop, index := p.index + 1, done := plan.interval.isNone })

end Plan

/-! ## All steps -/

/-- A bound on the number of steps still to come. -/
def Progress.remaining (p : Progress) : Nat :=
  (if p.done then 0 else 1) + (maxIterations - p.index)

namespace Plan

/-- With an interval there is a next piece only below the limit of steps. -/
theorem index_lt_of_piece? {plan : Plan} {p : Progress} {start stop : Instant}
    (hinterval : plan.interval.isSome = true)
    (h : plan.piece? p = some (.ok (start, stop))) : p.index < maxIterations := by
  unfold piece? at h
  split at h
  · cases h
  · split at h
    · simp_all
    · split at h
      · cases h
      · split at h
        · cases h
        · simp only at h
          split at h
          · cases h
          · split at h
            · cases h
            · omega

/-- An iteration that is over has no next piece. -/
theorem piece?_of_done {plan : Plan} {p : Progress} (h : p.done = true) :
    plan.piece? p = none := by
  simp [piece?, h]

/-- Every step brings an iteration closer to its end. -/
theorem remaining_next_lt {plan : Plan} {p after : Progress} {step : Step}
    (h : plan.next p = (some (.ok step), after)) : after.remaining < p.remaining := by
  unfold next at h
  split at h
  · cases h
  · cases h
  · rename_i start stop hpiece
    have hdone : p.done = false := by
      cases hd : p.done
      · rfl
      · rw [piece?_of_done hd] at hpiece
        cases hpiece
    split at h
    · cases h
    · cases h
      cases hinterval : plan.interval.isSome
      · have : plan.interval.isNone = true := by simpa using hinterval
        simp only [Progress.remaining, hdone, this]
        simp
        omega
      · have := index_lt_of_piece? hinterval hpiece
        have hnone : plan.interval.isNone = false := by
          cases hi : plan.interval <;> simp_all
        simp only [Progress.remaining, hdone, hnone]
        simp
        omega

/-- All steps still to come, or the first error. -/
def collect (plan : Plan) (p : Progress) : Except IterationError (List Step) :=
  match h : plan.next p with
  | (none, _) => .ok []
  | (some (.error e), _) => .error e
  | (some (.ok step), after) =>
    have := remaining_next_lt h
    match plan.collect after with
    | .error e => .error e
    | .ok steps => .ok (step :: steps)
termination_by p.remaining

/-- The progress before the first step of a range that starts at `start`.  Only a range
that starts at or before its end can be divided. -/
def begin (plan : Plan) (start : Instant) : Except IterationError Progress :=
  if plan.interval.isSome ∧ plan.stop < start then .error .invertedRange
  else .ok { current := start }

end Plan

/-- The steps of a range, or the first error. -/
def iterateRange (context : Context) (start stop : Instant) (interval : Option Interval)
    (transform : Option Transform) : Except IterationError (List Step) := do
  let plan : Plan := { context, stop, interval, transform }
  let p ← plan.begin start
  plan.collect p

end Almanac
