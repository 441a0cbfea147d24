/-!
# Expressions

What a text of the expression language says.  Operations are kept as they were
written, a name and an argument; what a name means is settled when the expression is
evaluated.

Main definitions:

- `Operation`: a name and an argument.
- `Expr`: dates, variables, pipes of operations, ranges and transforms.
- `Expr.isRange`: whether an expression stands for a range.
- `Transform`: the two expressions that reshape a step of an iteration.
-/

namespace Almanac

/-- An operation of the calendar, as it was written. -/
structure Operation where
  /-- The name, in lower case. -/
  op : String
  /-- The argument, empty if there is none. -/
  value : String
deriving DecidableEq, Repr

/-- An expression. -/
inductive Expr where
  /-- A date in words or digits, to be read when it is evaluated. -/
  | date (text : String)
  /-- An operation where a date was expected. -/
  | operation (operation : Operation)
  /-- Operations applied one after the other to the value of the base. -/
  | pipe (base : Expr) (operations : List Operation)
  /-- The time from one date to another. -/
  | range (start stop : Expr)
  /-- A name, with its dollar sign, that the context gives a value. -/
  | var (name : String)
  /-- The two sides of a transform. -/
  | transform (start stop : Expr)
deriving DecidableEq, Repr

namespace Expr

/-- Whether an expression is a range, or operations on one. -/
def isRange : Expr → Bool
  | range _ _ => true
  | pipe base _ => base.isRange
  | _ => false

/-- Operations on a base, or the base alone where there are none. -/
def piped (base : Expr) : List Operation → Expr
  | [] => base
  | op :: ops => pipe base (op :: ops)

end Expr

/-- Two expressions that give a step of an iteration its new start and stop. -/
structure Transform where
  start : Expr
  stop : Expr
deriving DecidableEq, Repr

end Almanac
