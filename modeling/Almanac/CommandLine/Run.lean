import Almanac.CommandLine.Expression
import Almanac.Output.Listing
import Almanac.Query

/-!
# Running the command

The command evaluates one expression and prints its value.  A range, an interval or a
transform asks for the steps of an iteration; anything else for a single instant.  The
moment that counts as now is given from outside, once.

An evaluation that breaks off ends the run with an exit code of its own and without a report, and
so does the writing of a value.  What was printed before stays printed.

Main definitions:

- `Failure`, `Failure.report`: why the command fails, and the causes in its report.
- `Arguments.question`: the expression to evaluate, and the context to do so in.
- `Arguments.answer`: what the command prints for an expression.
- `Arguments.run`: the outcome of the command for arguments that are understood.
- `command`: the outcome for any arguments.
-/

namespace Almanac.CommandLine

open Text

/-! ## Failures -/

/-- Why the command fails. -/
inductive Failure where
  /-- There is no expression to evaluate. -/
  | input (error : InputError)
  /-- There is no such zone. -/
  | zone (error : QueryError)
  /-- The text cannot be read as an expression. -/
  | parse (source : String) (error : ParseError)
  /-- The expression has no value. -/
  | evaluate (source : String) (error : QueryError)
  /-- The value cannot be written in the format. -/
  | format (error : RenderError)
deriving DecidableEq, Repr

/-- The cause beneath an error in reading, which its own text mentions already. -/
def parseCauses : ParseError → List String
  | .transformPart _ cause => [cause.message]
  | _ => []

/-- The causes beneath an error. -/
def queryCauses : QueryError → List String
  | .parse error => parseCauses error
  | _ => []

/-- The causes beneath the lack of an expression. -/
def inputCauses : InputError → List String
  | .unreadable => ["stream did not contain valid UTF-8"]
  | .noExpression => []

/-- What the report of a failure says, from the outermost cause to the innermost. -/
def Failure.causes : Failure → List String
  | input error => error.message :: inputCauses error
  | zone error => error.message :: queryCauses error
  | parse source error =>
    ("failed to parse '" ++ source ++ "'") :: error.message :: parseCauses error
  | evaluate source error =>
    ("failed to evaluate '" ++ source ++ "'") :: error.message :: queryCauses error
  | format error => ["failed to format result", error.message]

/-- The report of a failure, in one line. -/
def Failure.report (f : Failure) : String :=
  "error: " ++ String.intercalate ": " f.causes ++ "\n"

/-! ## Answers -/

/-- Whether arguments ask for the steps of an iteration. -/
def Arguments.asksForSteps (arguments : Arguments) (e : Expr) : Bool :=
  e.isRange || arguments.each.any (· ≠ "") || arguments.transform.isSome

/-- The steps to print: all of them, or only those that start on a working day. -/
def Arguments.keep (arguments : Arguments) (z : Zone) (steps : List Step) : List Step :=
  if arguments.skipWeekends then steps.filter fun s => !startsOnWeekend z s else steps

/-- What the command prints for an expression. -/
def Arguments.answer (arguments : Arguments) (ctx : Context) (source : String) :
    Except Failure Listing := do
  let e ← (parse source).mapError (.parse source)
  if arguments.asksForSteps e then
    let steps ← (iterateText ctx source (arguments.each.getD "") arguments.transform).mapError
      (.evaluate source)
    return writeSteps arguments.format ctx.zone (arguments.keep ctx.zone steps)
  else
    let i ← (evaluate ctx e).mapError fun error => .evaluate source (.eval error)
    return writeValue arguments.format ctx.zone i

/-- The zone that the arguments choose: the one of the machine, or one by name. -/
def Arguments.zone (arguments : Arguments) (zones : Zones) : Except Failure Zone :=
  match arguments.tz with
  | none => .ok zones.here
  | some name =>
    if name = "Local" ∨ name = "local" then .ok zones.here else (zones.find name).mapError .zone

/-- The expression to evaluate, and the context to do so in. -/
def Arguments.question (arguments : Arguments) (zones : Zones) (now : Instant)
    (input : List UInt8) (terminal : Bool) : Except Failure (String × Context) := do
  let source ← (arguments.resolveExpression input terminal).mapError .input
  let zone ← arguments.zone zones
  return (source, { now := now, zone := zone, weekStart := arguments.weekStart })

/-! ## Outcomes -/

/-- What a run of the command leaves: an exit code and two texts. -/
structure Outcome where
  code : UInt32
  stdout : String := ""
  stderr : String := ""
deriving DecidableEq, Repr

/-- Whether a failure is that a run breaks off, because the calendar does not cover a civil time
that it computes from. -/
def Failure.breaksOff (f : Failure) : Bool :=
  match f with
  | evaluate _ (.eval (.brokenOff _)) | evaluate _ (.iteration (.eval (.brokenOff _))) => true
  | format .brokenOff => true
  | _ => false

/-- The outcome of a failure after some text was printed.  A run that breaks off leaves no
report. -/
def Outcome.failed (f : Failure) (printed : List Char) : Outcome :=
  if f.breaksOff then { code := 101, stdout := String.ofList printed }
  else { code := 1, stdout := String.ofList printed, stderr := f.report }

/-- The outcome of a listing. -/
def Outcome.ofListing (l : Listing) : Outcome :=
  match l.failure with
  | none => { code := 0, stdout := String.ofList l.text }
  | some e => .failed (.format e) l.text

/-- The outcome of an answer, or of the failure to give one. -/
def Outcome.ofAnswer : Except Failure Listing → Outcome
  | .ok l => .ofListing l
  | .error f => .failed f []

/-- The names of all zones, one a line. -/
def zoneNames (zones : Zones) : String :=
  String.join (zones.named.map fun z => z.name ++ "\n")

/-- The outcome of the command for arguments that are understood. -/
def Arguments.run (arguments : Arguments) (zones : Zones) (now : Instant) (input : List UInt8)
    (terminal : Bool) : Outcome :=
  if arguments.listTz then { code := 0, stdout := zoneNames zones }
  else
    match arguments.question zones now input terminal with
    | .error f => .failed f []
    | .ok (source, ctx) => .ofAnswer (arguments.answer ctx source)

/-! ## The whole command -/

/-- The line that names the command and its version. -/
def versionText : String :=
  "calcdate 0.2.0\n"

/-- How the command is used. -/
def helpText : String :=
  String.join (List.map (· ++ "\n")
    ["Evaluate date expressions and iterate date ranges.",
      "",
      "Usage: calcdate [OPTIONS] [EXPR]",
      "",
      "Options:",
      "  -x, --expr <EXPR>            Date expression",
      "      --tz <TZ>                Timezone name, or Local",
      "  -e, --each <INTERVAL>        Iteration interval for ranges",
      "  -t, --transform <TRANSFORM>  Transform applied to every iteration",
      "  -f, --format <FORMAT>        iso, sql, ts, human, compact, json or a pattern",
      "      --skip-weekends          Drop iterations that begin on a weekend",
      "      --week-start <DAY>       monday or sunday",
      "      --list-tz                List timezone names",
      "      --log-level <LEVEL>      trace, debug, info, warn or error",
      "  -v, --version                Print version",
      "  -h, --help                   Print help"])

/-- The text shown for arguments that cannot be understood. -/
def UsageError.message : UsageError → String
  | unknownArgument text => "unexpected argument '" ++ text ++ "' found"
  | unexpectedValue _ => "unexpected value for an option that takes none"
  | missingValue _ => "a value is required for an option but none was supplied"
  | repeated _ => "an option cannot be used multiple times"
  | invalidFormat error => error.message
  | invalidLogLevel text => LogLevel.unknownMessage text
  | invalidWeekStart text => "invalid week start '" ++ text ++ "', expected monday or sunday"
  | twoExpressions => "an expression can be given only once"
  | help => helpText
  | version => versionText

/-- The outcome of arguments that are not understood, or that ask for something else than
an answer. -/
def Outcome.ofUsage : UsageError → Outcome
  | .help => { code := 0, stdout := helpText }
  | .version => { code := 0, stdout := versionText }
  | e => { code := 2, stderr := "error: " ++ e.message ++ "\n" }

/-- Whether the command looks at its input: only where no argument makes that needless. -/
def readsInput (env : Environment) (arguments : List String) (terminal : Bool) : Bool :=
  match Arguments.ofList env arguments with
  | .ok arguments => arguments.expression.isNone && !arguments.listTz && !terminal
  | .error _ => false

/-- The outcome of the command. -/
def command (env : Environment) (now : Instant) (arguments : List String) (input : List UInt8)
    (terminal : Bool) : Outcome :=
  match Arguments.ofList env arguments with
  | .ok arguments => arguments.run Zones.known now input terminal
  | .error e => .ofUsage e

end Almanac.CommandLine
