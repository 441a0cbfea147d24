import Almanac.Iteration.Basic
import Almanac.Output.Format

/-!
# Listings

What is printed for an instant or for the steps of a range: a line for each, or one
JSON document.  All is printed as it comes, so a failure leaves what is before it: of lines, those
that are complete; of a JSON document, all up to the quotation mark that opens the instant.

Main definitions:

- `Listing`: the text that was printed and the failure that ended it, if one did.
- `Listing.append`: a listing and what is printed after it.
- `writeValue`: the listing of an instant.
- `writeSteps`: the listing of steps.
- `startsOnWeekend`: whether a step starts on a Saturday or a Sunday.
-/

namespace Almanac

open Text

/-- What was printed before the end or the first failure. -/
structure Listing where
  text : List Char := []
  failure : Option RenderError := none
deriving DecidableEq, Repr

namespace Listing

/-- A listing, and after it another unless the first ended in a failure. -/
def append (l m : Listing) : Listing :=
  match l.failure with
  | none => { m with text := l.text ++ m.text }
  | some _ => l

instance : Append Listing := ⟨append⟩

/-- The listing of a text that is printed at once, if there is one. -/
def ofExcept : Except RenderError (List Char) → Listing
  | .ok text => { text }
  | .error e => { failure := some e }

end Listing

/-- Whether a step starts on a Saturday or a Sunday of the zone. -/
def startsOnWeekend (z : Zone) (s : Step) : Bool :=
  let w := (z.civil s.start).date.weekday
  w == .saturday || w == .sunday

/-! ## JSON -/

/-- A part of a JSON document that is the same for all instants. -/
def jsonText (text : String) : Listing where
  text := text.toList

/-- An instant as a JSON string, with the fraction of its second.  The quotation mark is printed
before the instant is read. -/
def jsonInstant (z : Zone) (i : Instant) : Listing :=
  jsonText "\"" ++ .ofExcept ((z.reading i).writeRfc3339 true) ++ jsonText "\""

/-- One step as a JSON object, indented by two spaces. -/
def jsonStep (z : Zone) (s : Step) : Listing :=
  jsonText "  \x7b\n    \"begin\": " ++ jsonInstant z s.start ++
    jsonText ",\n    \"end\": " ++ jsonInstant z s.stop ++
    jsonText ",\n    \"index\": " ++ { text := plain s.index } ++ jsonText "\n  \x7d"

/-- The steps after the first as elements of a JSON array. -/
def jsonRest (z : Zone) : List Step → Listing
  | [] => jsonText "\n]"
  | s :: rest => jsonText ",\n" ++ jsonStep z s ++ jsonRest z rest

/-- Steps as a JSON array. -/
def jsonSteps (z : Zone) : List Step → Listing
  | [] => jsonText "[]"
  | s :: rest => jsonText "[\n" ++ jsonStep z s ++ jsonRest z rest

/-! ## Lines -/

/-- The line of one step: its two ends. -/
def stepLine (format : OutputFormat) (z : Zone) (s : Step) : Except RenderError (List Char) := do
  let start ← format.render z s.start
  let stop ← format.render z s.stop
  return start ++ " - ".toList ++ stop ++ ['\n']

/-- The lines of steps, up to the first that cannot be written. -/
def stepLines (format : OutputFormat) (z : Zone) : List Step → Listing
  | [] => {}
  | s :: rest => .ofExcept (stepLine format z s) ++ stepLines format z rest

/-! ## Listings -/

/-- The listing of an instant. -/
def writeValue (format : OutputFormat) (z : Zone) (i : Instant) : Listing :=
  if format = .json then jsonInstant z i ++ { text := ['\n'] }
  else .ofExcept (format.render z i) ++ { text := ['\n'] }

/-- The listing of steps. -/
def writeSteps (format : OutputFormat) (z : Zone) (steps : List Step) : Listing :=
  if format = .json then jsonSteps z steps ++ { text := ['\n'] }
  else stepLines format z steps

end Almanac
