import Almanac.Eval.Error

/-!
# Errors of iteration

Why a range cannot be divided into steps, and how each cause is worded.

Main definitions:

- `maxIterations`: the largest number of steps.
- `IterationError`, `IterationError.message`: the causes and their texts.
-/

namespace Almanac

/-- The largest number of steps that a range may be divided into. -/
def maxIterations : Nat := 10000

/-- Why a range cannot be divided into steps. -/
inductive IterationError where
  /-- A text that is no interval. -/
  | invalidInterval (text : String)
  /-- More steps than the limit allows. -/
  | tooManyIterations (limit : Nat)
  /-- A range whose start is after its end. -/
  | invertedRange
  /-- An interval, but no range to divide. -/
  | intervalWithoutRange
  /-- A step or a transform without a value. -/
  | eval (error : EvalError)
deriving DecidableEq, Repr

/-- The text shown for an error of iteration. -/
def IterationError.message : IterationError → String
  | invalidInterval text => "invalid interval format '" ++ text ++ "'"
  | tooManyIterations limit => "too many iterations (max " ++ toString limit ++ ")"
  | invertedRange => "range start is after range end"
  | intervalWithoutRange => "an interval requires a range expression"
  | eval error => error.message

end Almanac
