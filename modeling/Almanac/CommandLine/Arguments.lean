import Almanac.Calendar.Date
import Almanac.Output.Format

/-!
# Arguments of the command

What the command can be told: an expression, the zone, an interval and a transform, and
how to print.  Options have long names after two dashes, some of them one letter after
a single dash.  A value follows its option as the next argument or in the same one; a
lone `--` ends the options.

Main definitions:

- `Arguments`: everything that the command was told.
- `Flag`, `Setting`: the options without and with a value.
- `UsageError`: why arguments cannot be understood, or call for help or the version.
- `Arguments.ofList`: what a list of arguments tells.
-/

namespace Almanac.CommandLine

/-! ## Levels of diagnostics -/

/-- How much is reported about the work itself. -/
inductive LogLevel where
  | trace | debug | info | warn | error
deriving DecidableEq, Repr

namespace LogLevel

/-- The name of a level. -/
def name : LogLevel → String
  | trace => "trace"
  | debug => "debug"
  | info => "info"
  | warn => "warn"
  | error => "error"

/-- The level that a text names, in capitals or small letters. -/
def ofText? (text : String) : Option LogLevel :=
  [("trace", trace), ("debug", debug), ("info", info), ("warn", warn), ("warning", warn),
    ("error", error)].lookup (String.ofList (text.toList.map Char.toLower))

/-- The text shown for a level that does not exist. -/
def unknownMessage (text : String) : String :=
  "unknown log level '" ++ text ++ "', expected one of: trace, debug, info, warn, error"

end LogLevel

/-! ## Options -/

/-- The options that take no value. -/
inductive Flag where
  | skipWeekends | listTz | version | help
deriving DecidableEq, Repr

/-- The options that take a value. -/
inductive Setting where
  | expr | tz | each | transform | format | weekStart | logLevel
deriving DecidableEq, Repr

/-- The long names of the options. -/
def longNames : List (String × (Flag ⊕ Setting)) :=
  [("expr", .inr .expr), ("tz", .inr .tz), ("each", .inr .each), ("transform", .inr .transform),
    ("format", .inr .format), ("skip-weekends", .inl .skipWeekends),
    ("week-start", .inr .weekStart), ("list-tz", .inl .listTz), ("log-level", .inr .logLevel),
    ("version", .inl .version), ("help", .inl .help)]

/-- The letters of the options that have one. -/
def letters : List (Char × (Flag ⊕ Setting)) :=
  [('x', .inr .expr), ('e', .inr .each), ('t', .inr .transform), ('f', .inr .format),
    ('v', .inl .version), ('h', .inl .help)]

/-- Why arguments cannot be understood, or what they ask for instead of an answer. -/
inductive UsageError where
  /-- An option that does not exist, or an expression too many. -/
  | unknownArgument (text : String)
  /-- A value for an option that takes none. -/
  | unexpectedValue (option : Flag)
  /-- An option without its value. -/
  | missingValue (option : Setting)
  /-- A setting or a flag that was given before. -/
  | repeated (option : Flag ⊕ Setting)
  | invalidFormat (error : FormatError)
  | invalidLogLevel (text : String)
  | invalidWeekStart (text : String)
  /-- An expression both as an option and without. -/
  | twoExpressions
  | help
  | version
deriving DecidableEq

/-! ## What was given -/

/-- What has been given so far, each thing at most once. -/
structure Given where
  /-- The expression that is not the value of an option. -/
  expression : Option String := none
  expr : Option String := none
  tz : Option String := none
  each : Option String := none
  transform : Option String := none
  format : Option OutputFormat := none
  weekStart : Option WeekStart := none
  logLevel : Option LogLevel := none
  skipWeekends : Bool := false
  listTz : Bool := false

namespace Given

/-- Whether a setting has been given. -/
def has (g : Given) : Setting → Bool
  | .expr => g.expr.isSome
  | .tz => g.tz.isSome
  | .each => g.each.isSome
  | .transform => g.transform.isSome
  | .format => g.format.isSome
  | .weekStart => g.weekStart.isSome
  | .logLevel => g.logLevel.isSome

/-- Take in the value of a log level. -/
def setLogLevel (g : Given) (text : String) : Except UsageError Given :=
  match LogLevel.ofText? text with
  | some level => .ok { g with logLevel := some level }
  | none => .error (.invalidLogLevel text)

/-- Take in the value of a setting that has not been given before. -/
def put (g : Given) (option : Setting) (text : String) : Except UsageError Given :=
  match option with
  | .expr => .ok { g with expr := some text }
  | .tz => .ok { g with tz := some text }
  | .each => .ok { g with each := some text }
  | .transform => .ok { g with transform := some text }
  | .format =>
    match OutputFormat.ofText text with
    | .ok format => .ok { g with format := some format }
    | .error e => .error (.invalidFormat e)
  | .weekStart =>
    match [("monday", WeekStart.monday), ("sunday", .sunday)].lookup text with
    | some start => .ok { g with weekStart := some start }
    | none => .error (.invalidWeekStart text)
  | .logLevel => g.setLogLevel text

/-- Take in the value of a setting, which is missing if there is none. -/
def set (g : Given) (option : Setting) (value : Option String) : Except UsageError Given :=
  match value with
  | none => .error (.missingValue option)
  | some text => if g.has option then .error (.repeated (.inr option)) else g.put option text

/-- Take in a flag. -/
def raise (g : Given) : Flag → Except UsageError Given
  | .skipWeekends =>
    if g.skipWeekends then .error (.repeated (.inl .skipWeekends))
    else .ok { g with skipWeekends := true }
  | .listTz =>
    if g.listTz then .error (.repeated (.inl .listTz)) else .ok { g with listTz := true }
  | .version => .error .version
  | .help => .error .help

end Given

/-! ## Reading the arguments -/

/-- The state of reading: what has been given, an option whose value may still come or has
come but is not yet taken in, and whether the options have ended. -/
structure Scan where
  given : Given := {}
  /-- The last setting and the argument after it. -/
  pending : Option (Setting × Option String) := none
  /-- Whether a lone `--` has been read. -/
  ended : Bool := false

namespace Scan

/-- Take in the pending option. -/
def settle (s : Scan) : Except UsageError Given :=
  match s.pending with
  | none => .ok s.given
  | some (option, value) => s.given.set option value

/-- Read an option, with the value that stands in the same argument if there is one. -/
def readOption (s : Scan) (option : Flag ⊕ Setting) (value : Option String) :
    Except UsageError Scan := do
  match option, value with
  | .inl flag, none =>
    let given ← (← s.settle).raise flag
    return { s with given := given, pending := none }
  | .inl flag, some _ => throw (.unexpectedValue flag)
  | .inr setting, some text =>
    let given ← (← s.settle).set setting (some text)
    return { s with given := given, pending := none }
  | .inr setting, none =>
    let given ← s.settle
    return { s with given := given, pending := some (setting, none) }

/-- Read an option by its long name, with an equals sign before its value. -/
def readLong (s : Scan) (cs : List Char) : Except UsageError Scan :=
  let name := String.ofList (cs.takeWhile (· ≠ '='))
  let value := match cs.dropWhile (· ≠ '=') with
    | [] => none
    | _ :: text => some (String.ofList text)
  match longNames.lookup name with
  | some option => s.readOption option value
  | none => .error (.unknownArgument (String.ofList ('-' :: '-' :: cs)))

/-- The value that stands right after a letter, with an equals sign before it or without. -/
def attachedValue : List Char → Option String
  | [] => none
  | '=' :: text => some (String.ofList text)
  | text => some (String.ofList text)

/-- Read an option by its letter.  After the letter of a flag nothing more is read, as
both of them end the command. -/
def readShort (s : Scan) (letter : Char) (cs : List Char) : Except UsageError Scan :=
  match letters.lookup letter with
  | some (.inl flag) => s.readOption (.inl flag) none
  | some (.inr setting) => s.readOption (.inr setting) (attachedValue cs)
  | none => .error (.unknownArgument (String.ofList ('-' :: letter :: cs)))

/-- Read an argument that is no option: the expression. -/
def readExpression (s : Scan) (text : String) : Except UsageError Scan :=
  if s.given.expression.isSome then .error (.unknownArgument text)
  else do
    let given ← s.settle
    return { s with given := { given with expression := some text }, pending := none }

/-- Read an argument that is no option: the value of the last option, or the expression. -/
def readValue (s : Scan) (text : String) : Except UsageError Scan :=
  match s.pending with
  | some (option, none) => .ok { s with pending := some (option, some text) }
  | _ => s.readExpression text

/-- Read one argument. -/
def read (s : Scan) (argument : String) : Except UsageError Scan :=
  if s.ended then s.readExpression argument
  else
    match argument.toList with
    | ['-', '-'] => .ok { s with ended := true }
    | '-' :: '-' :: cs => s.readLong cs
    | '-' :: letter :: cs => s.readShort letter cs
    | _ => s.readValue argument

end Scan

/-! ## The arguments -/

/-- The settings that the environment can give. -/
structure Environment where
  tz : Option String := none
  logLevel : Option String := none

/-- Everything that the command was told. -/
structure Arguments where
  /-- The expression, given by itself or as an option. -/
  expression : Option String
  tz : Option String
  each : Option String
  transform : Option String
  format : OutputFormat
  skipWeekends : Bool
  weekStart : WeekStart
  listTz : Bool
  logLevel : LogLevel

/-- What has been given, completed by what the environment gives. -/
def Given.completed (g : Given) (env : Environment) : Except UsageError Given :=
  let g := { g with tz := g.tz.or env.tz }
  match g.logLevel, env.logLevel with
  | none, some text => g.setLogLevel text
  | _, _ => .ok g

/-- The arguments that something given amounts to, with the defaults filled in. -/
def Given.toArguments (g : Given) : Except UsageError Arguments :=
  if g.expression.isSome ∧ g.expr.isSome then .error .twoExpressions
  else
    .ok
      { expression := g.expression.or g.expr
        tz := g.tz
        each := g.each
        transform := g.transform
        format := g.format.getD .sql
        skipWeekends := g.skipWeekends
        weekStart := g.weekStart.getD .monday
        listTz := g.listTz
        logLevel := g.logLevel.getD .warn }

/-- What a list of arguments tells in an environment. -/
def Arguments.ofList (env : Environment) (arguments : List String) :
    Except UsageError Arguments := do
  let scan ← arguments.foldlM Scan.read {}
  let given ← scan.settle
  let given ← given.completed env
  given.toArguments

end Almanac.CommandLine
