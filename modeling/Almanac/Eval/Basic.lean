import Almanac.Expr.Basic
import Almanac.Literal.Value
import Almanac.Operation.Apply

/-!
# Evaluation

An expression stands for an instant or for a range of two instants.  A pipe of
operations on a range changes the second of them only.

Main definitions:

- `evaluate`: the instant that an expression stands for.
- `evaluateRange`: the two instants of a range.
- `evaluateTransform`: the two instants that a transform gives to a step.
-/

namespace Almanac

/-- The instant that an expression stands for. -/
def evaluate (ctx : Context) : Expr → Except EvalError Instant
  | .date text => dateValue ctx text
  | .var name =>
    match ctx.value? name with
    | some i => .ok i
    | none => .error (.missingVariable name)
  | .pipe base operations => do
    let i ← evaluate ctx base
    Operation.applyAll ctx.weekStart ctx.zone i operations
  | .operation o => .error (.operationWithoutBase o.op)
  | .range _ _ => .error .rangeNotSingleValue
  | .transform _ _ => .error .transformNotSingleValue

/-- The two instants of a range, the first of which need not be the earlier. -/
def evaluateRange (ctx : Context) : Expr → Except EvalError (Instant × Instant)
  | .range start stop => do
    let start ← evaluate ctx start
    let stop ← evaluate ctx stop
    return (start, stop)
  | .pipe base operations =>
    if base.isRange then do
      let (start, stop) ← evaluateRange ctx base
      let stop ← Operation.applyAll ctx.weekStart ctx.zone stop operations
      return (start, stop)
    else .error .notARange
  | _ => .error .notARange

/-- The context in which a transform is evaluated for a step from `start` to `stop`. -/
def Context.forStep (ctx : Context) (start stop : Instant) (index : Nat) : Context :=
  { (ctx.bind "$begin" start).bind "$end" stop with index := index }

/-- The two instants that a transform gives to the step from `start` to `stop`. -/
def evaluateTransform (ctx : Context) (t : Transform) (start stop : Instant) (index : Nat) :
    Except EvalError (Instant × Instant) := do
  let inner := ctx.forStep start stop index
  let newStart ← evaluate inner t.start
  let newStop ← evaluate inner t.stop
  return (newStart, newStop)

end Almanac
