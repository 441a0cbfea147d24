import Almanac.Zone.Basic

/-!
# Errors of evaluation

An expression that can be read need not have a value.  This module lists the causes,
says how each is worded, and gives the two steps between instants and civil times that
most operations begin and end with.

Less than a day from the ends of the calendar, the clocks of a zone can show a civil time that
the calendar does not cover, although it covers the instant.  Nothing can be computed from such a
civil time: to ask for it is no error, but breaks the evaluation off.

Main definitions:

- `EvalError`: why an expression or an operation has no value.
- `orOutOfRange`: a result that may lie outside the calendar.
- `Zone.consult`: the civil time to compute from, unless the evaluation breaks off there.
- `Zone.localize`: the instant meant by a civil time, or the error that there is none.
-/

namespace Almanac

/-- Why an expression has no value. -/
inductive EvalError where
  /-- A unit of time, or of rounding, that does not exist. -/
  | unknownUnit (unit : String)
  /-- An operation that does not exist. -/
  | unknownOperation (op : String)
  /-- A text that is no date. -/
  | invalidDateValue (text : String)
  /-- An argument that its operation cannot take. -/
  | invalidArgument (op value : String)
  /-- A variable to which the context gives no value. -/
  | missingVariable (name : String)
  /-- A range where a single instant was asked for. -/
  | rangeNotSingleValue
  /-- A transform where a single instant was asked for. -/
  | transformNotSingleValue
  /-- An operation where a date was expected. -/
  | operationWithoutBase (op : String)
  /-- Anything else where a range was asked for. -/
  | notARange
  /-- A result outside the calendar. -/
  | outOfRange (text : String)
  /-- An instant whose civil time is to be computed from, and is one that the calendar does not
  cover.  This one is never reported as an error: the evaluation breaks off there, and the run of
  the program with it. -/
  | brokenOff (i : Instant)
deriving DecidableEq, Repr

/-- The text shown for an error of evaluation. -/
def EvalError.message : EvalError → String
  | unknownUnit unit => "unknown time unit '" ++ unit ++ "'"
  | unknownOperation op => "unknown operation '" ++ op ++ "'"
  | invalidDateValue text => "invalid date value '" ++ text ++ "'"
  | invalidArgument op value =>
    "invalid argument '" ++ value ++ "' for operation '" ++ op ++ "'"
  | missingVariable name => "variable not found in context: " ++ name
  | rangeNotSingleValue => "range expressions must be evaluated with evaluate_range"
  | transformNotSingleValue =>
    "transform expressions must be evaluated with evaluate_transform"
  | operationWithoutBase op =>
    "operation '" ++ op ++ "' cannot be evaluated without a base date"
  | notARange => "not a range expression"
  | outOfRange text => "date arithmetic out of range: " ++ text
  | brokenOff _ => "Local time out of range for `NaiveDateTime`"

/-- A result, or the error that it lies outside the calendar. -/
def orOutOfRange {α : Type} (text : List Char) : Option α → Except EvalError α
  | some a => .ok a
  | none => .error (.outOfRange (String.ofList text))

/-- The civil time that the clocks of a zone show, to compute from.  Where the calendar does not
cover it, the evaluation breaks off. -/
def Zone.consult (z : Zone) (i : Instant) : Except EvalError Civil :=
  if (z.civil i).InRange then .ok (z.civil i) else .error (.brokenOff i)

/-- The instant meant by a civil time. -/
def Zone.localize (z : Zone) (c : Civil) : Except EvalError Instant :=
  orOutOfRange c.text (z.localize? c)

/-- A result that may lie outside the calendar is one that lies inside. -/
theorem orOutOfRange_eq_ok_iff {α : Type} {text : List Char} {o : Option α} {a : α} :
    orOutOfRange text o = .ok a ↔ o = some a := by
  cases o <;> simp [orOutOfRange]

namespace Zone

variable {z : Zone} {i : Instant}

theorem consult_of_inRange (h : (z.civil i).InRange) : z.consult i = .ok (z.civil i) :=
  if_pos h

theorem consult_of_not_inRange (h : ¬ (z.civil i).InRange) : z.consult i = .error (.brokenOff i) :=
  if_neg h

/-- To consult what the clocks show either succeeds or breaks off. -/
theorem consult_eq_error_iff {e : EvalError} :
    z.consult i = .error e ↔ ¬ (z.civil i).InRange ∧ e = .brokenOff i := by
  by_cases h : (z.civil i).InRange
  · simp [consult_of_inRange h, h]
  · simp [consult_of_not_inRange h, h, eq_comm]

end Zone

end Almanac
