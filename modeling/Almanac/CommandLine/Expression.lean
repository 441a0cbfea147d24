import Almanac.CommandLine.Arguments
import Almanac.Text.Blank

/-!
# Choosing the expression

The expression is the one among the arguments.  Without one, a terminal means `now`,
and any other input is read line by line up to the first line that is not blank.

Main definitions:

- `lines`: the lines of an input of bytes.
- `firstExpression`: the first line that is not blank.
- `Arguments.resolveExpression`: the expression to evaluate.
-/

namespace Almanac.CommandLine

open Text

/-- Why there is no expression. -/
inductive InputError where
  /-- A line that is not UTF-8 before any that is not blank. -/
  | unreadable
  /-- No line that is not blank. -/
  | noExpression
deriving DecidableEq, Repr

/-- The text shown where there is no expression. -/
def InputError.message : InputError → String
  | unreadable => "failed to read expression from stdin"
  | noExpression => "no expression provided via stdin"

/-- The line feed, which ends a line. -/
def lineFeed : UInt8 := 10

/-- The lines of an input, without the line feeds between them. -/
def lines : List UInt8 → List (List UInt8)
  | [] => [[]]
  | b :: bs =>
    if b = lineFeed then [] :: lines bs
    else
      match lines bs with
      | [] => [[b]]
      | line :: rest => (b :: line) :: rest

/-- The characters of a line, if it is UTF-8. -/
def decode? (line : List UInt8) : Option (List Char) :=
  (String.fromUTF8? ⟨line.toArray⟩).map String.toList

/-- The first line that is not blank, without the blanks at its ends.  No line after it
is looked at. -/
def firstExpression : List (List UInt8) → Except InputError String
  | [] => .error .noExpression
  | line :: rest =>
    match decode? line with
    | none => .error .unreadable
    | some cs => if trim cs = [] then firstExpression rest else .ok (String.ofList (trim cs))

/-- The expression to evaluate. -/
def Arguments.resolveExpression (arguments : Arguments) (input : List UInt8) (terminal : Bool) :
    Except InputError String :=
  match arguments.expression with
  | some expression => .ok expression
  | none => if terminal then .ok "now" else firstExpression (lines input)

end Almanac.CommandLine
