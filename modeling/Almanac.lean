import Almanac.Calendar.Civil
import Almanac.Calendar.Date
import Almanac.Calendar.Span
import Almanac.Calendar.TimeOfDay
import Almanac.CommandLine.Arguments
import Almanac.CommandLine.Expression
import Almanac.CommandLine.Run
import Almanac.Eval.Basic
import Almanac.Eval.Context
import Almanac.Eval.Error
import Almanac.Expr.Basic
import Almanac.Expr.Parser
import Almanac.Instant
import Almanac.Iteration.Basic
import Almanac.Iteration.Error
import Almanac.Iteration.Interval
import Almanac.Literal.Clock
import Almanac.Literal.Iso
import Almanac.Literal.Value
import Almanac.Main
import Almanac.Operation.Apply
import Almanac.Operation.Period
import Almanac.Operation.Rounding
import Almanac.Operation.Shift
import Almanac.Output.Format
import Almanac.Output.Listing
import Almanac.Output.Pattern
import Almanac.Output.Reading
import Almanac.Proofs.Instant.Elapsed
import Almanac.Proofs.Iteration.Run
import Almanac.Query
import Almanac.Text.Blank
import Almanac.Text.Decimal
import Almanac.Token.Basic
import Almanac.Token.Lexer
import Almanac.Zone.Abbreviation
import Almanac.Zone.Basic
import Almanac.Zone.Rule
import Almanac.Zone.Table
import Almanac.Proofs.Iteration.FixedSteps
import Almanac.Proofs.Iteration.Reshaping
import Almanac.Proofs.Calendar.Date
import Almanac.Proofs.IsoDate.Form
import Almanac.Proofs.IsoDate.Token
import Almanac.Proofs.Calendar.Civil
import Almanac.Proofs.IsoDate.Value
import Almanac.Proofs.Token.Word
import Almanac.Proofs.Expr.Grammar
import Almanac.Proofs.Token.Layout
import Almanac.Proofs.Token.Spacing
import Almanac.Proofs.Calendar.Month
import Almanac.Proofs.Expr.Printing
import Almanac.Proofs.Operation.Period
import Almanac.Proofs.Zone.Fixed
import Almanac.Proofs.Operation.Tiling
import Almanac.Proofs.Zone.Localize
import Almanac.Proofs.Operation.Clock
import Almanac.Proofs.Calendar.MonthShift
import Almanac.Proofs.Operation.Shift
import Almanac.Proofs.Literal.Quantity
import Almanac.Proofs.Iteration.CalendarSteps
import Almanac.Proofs.Output.ReadBack
import Almanac.Proofs.Token.Continuation
import Almanac.Proofs.Expr.Piping
import Almanac.Proofs.Eval.Substitution
import Almanac.Proofs.Eval.Dependence
import Almanac.Proofs.Eval.Range
import Almanac.Proofs.Output.Listing
import Almanac.Proofs.CommandLine.Run
import Almanac.Proofs.Iteration.Interval
import Almanac.Proofs.Iteration.ShiftSteps
import Almanac.Proofs.Eval.Catalog
import Almanac.Proofs.Operation.Idempotence
import Almanac.Proofs.Operation.Rounding
import Almanac.Proofs.Iteration.Clamping
import Almanac.Proofs.Iteration.LeapSecond
import Almanac.Proofs.Operation.Absorption
import Almanac.Proofs.Operation.WallClock
import Almanac.Proofs.Operation.Composition
import Almanac.Proofs.Literal.NamedDay
import Almanac.Proofs.Operation.Assignment
import Almanac.Proofs.Expr.ViablePrefix
import Almanac.Proofs.Token.Characters
import Almanac.Proofs.Token.Truncation
import Almanac.Proofs.Token.Failure
import Almanac.Proofs.Token.Placement
import Almanac.Proofs.Expr.Placement
import Almanac.Proofs.Expr.Transform
import Almanac.Proofs.Text.Blank
import Almanac.Proofs.CommandLine.Expression
import Almanac.Proofs.Calendar.MonthLength
import Almanac.Proofs.Operation.Coverage
