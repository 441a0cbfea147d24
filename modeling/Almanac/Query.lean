import Almanac.Expr.Parser
import Almanac.Iteration.Basic
import Almanac.Zone.Table

/-!
# Answers to texts

The whole way from the text of an expression to its value, for a single instant, for a
range and for the steps of a range.  All errors on the way are gathered in one type.

Main definitions:

- `QueryError`: everything that can go wrong between a text and its value.
- `evaluateText`, `evaluateRangeText`, `iterateText`: the values of a text.
- `Zones.find`, `zoneNamed`: the zone of a name, or the error that there is none.
-/

namespace Almanac

open Text

/-- Why a text has no value. -/
inductive QueryError where
  /-- The text is not an expression. -/
  | parse (error : ParseError)
  /-- The expression has no value. -/
  | eval (error : EvalError)
  /-- The range cannot be divided into steps. -/
  | iteration (error : IterationError)
  /-- There is no zone with the name. -/
  | invalidTimezone (name : String)
deriving DecidableEq, Repr

/-- The text shown for an error. -/
def QueryError.message : QueryError → String
  | parse error => error.message
  | eval error => error.message
  | iteration error => error.message
  | invalidTimezone name => "invalid timezone: '" ++ name ++ "'"

/-- The zone with the given name, among those that one can choose from. -/
def Zones.find (zones : Zones) (name : String) : Except QueryError Zone :=
  match zones.ofName? name with
  | some z => .ok z
  | none => .error (.invalidTimezone name)

/-- The zone with the given name. -/
def zoneNamed (name : String) : Except QueryError Zone :=
  Zones.known.find name

/-- The instant that a text stands for. -/
def evaluateText (ctx : Context) (source : String) : Except QueryError Instant := do
  let e ← (parse source).mapError .parse
  (evaluate ctx e).mapError .eval

/-- The range that a text stands for. -/
def evaluateRangeText (ctx : Context) (source : String) :
    Except QueryError (Instant × Instant) := do
  let e ← (parse source).mapError .parse
  (evaluateRange ctx e).mapError .eval

/-- The transform that a text is, none if it is blank. -/
def optionalTransform (source : Option String) : Except ParseError (Option Transform) :=
  match source with
  | none => .ok none
  | some text => if trim text.toList = [] then .ok none else (parseTransform text).map some

/-- The two ends of what an expression stands for: those of a range, or twice the one
instant, which cannot be divided. -/
def endpoints (ctx : Context) (e : Expr) (interval : Option Interval) :
    Except QueryError (Instant × Instant) :=
  if e.isRange then (evaluateRange ctx e).mapError .eval
  else if interval.isSome then .error (.iteration .intervalWithoutRange)
  else ((evaluate ctx e).map fun i => (i, i)).mapError .eval

/-- The steps of what a text stands for, by the texts of an interval and of a transform.
All three are read before any of them is evaluated. -/
def iterateText (ctx : Context) (source interval : String) (transform : Option String) :
    Except QueryError (List Step) := do
  let e ← (parse source).mapError .parse
  let interval ← (parseInterval interval).mapError .iteration
  let transform ← (optionalTransform transform).mapError .parse
  let (start, stop) ← endpoints ctx e interval
  (iterateRange ctx start stop interval transform).mapError .iteration

end Almanac
