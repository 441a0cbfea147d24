import Almanac.Output.Pattern

/-!
# Output formats

An instant is written in one of six formats that have a name, or as a pattern says.  The notation
of RFC 3339 is computed from a civil time that the calendar has to cover; the other formats show
any.

Main definitions:

- `OutputFormat`: the formats.
- `OutputFormat.ofText`: the format that a text asks for.
- `RenderError`: why an instant cannot be written.
- `Reading.writeRfc3339`: a reading in the notation of RFC 3339, unless the writing breaks off there.
- `OutputFormat.render`: an instant in a format.
-/

namespace Almanac

/-- How instants are written. -/
inductive OutputFormat where
  /-- RFC 3339, with whole seconds. -/
  | iso
  /-- Date and time of day with a space between them. -/
  | sql
  /-- Seconds since 1 January 1970, 00:00 UTC. -/
  | timestamp
  /-- Weekday, month, day and year in English. -/
  | human
  /-- Year, month and day without separators. -/
  | compact
  /-- JSON, in which an instant is a text in the notation of RFC 3339. -/
  | json
  | custom (pattern : Pattern)
deriving DecidableEq

/-- Why a text does not name a format. -/
inductive FormatError where
  /-- A pattern with a percent sign that is not known. -/
  | invalidPattern (text : String)
  /-- Neither a name nor a pattern. -/
  | unknownFormat (text : String)
deriving DecidableEq, Repr

/-- The text shown for a format that is not known. -/
def FormatError.message : FormatError → String
  | invalidPattern text => "invalid strftime pattern '" ++ text ++ "'"
  | unknownFormat text =>
    "unknown format '" ++ text ++
      "', expected iso, sql, ts, human, compact, json or a strftime pattern"

/-- Why an instant cannot be written. -/
inductive RenderError where
  /-- A format has no written form for an instant. -/
  | unwritable
  /-- A civil time to compute from that the calendar does not cover.  This one is never reported
  as an error: the writing breaks off, and the run of the program with it. -/
  | brokenOff
deriving DecidableEq, Repr

/-- The text shown where an instant cannot be written. -/
def RenderError.message : RenderError → String
  | unwritable => "an error occurred when formatting an argument"
  | brokenOff => "Local time out of range for `NaiveDateTime`"

/-- A text, or the error that there is none. -/
def orUnwritable : Option (List Char) → Except RenderError (List Char)
  | some text => .ok text
  | none => .error .unwritable

/-- A reading in the notation of RFC 3339.  Where the calendar does not cover what is read, the
writing breaks off. -/
def Reading.writeRfc3339 (fraction : Bool) (r : Reading) : Except RenderError (List Char) :=
  if r.civil.InRange then .ok (rfc3339 fraction r) else .error .brokenOff

namespace OutputFormat

/-- The names of formats; no name asks for the second of them. -/
def named : List (String × OutputFormat) :=
  [("iso", iso), ("sql", sql), ("", sql), ("ts", timestamp), ("human", human),
    ("compact", compact), ("json", json)]

/-- The format that a text asks for: by a name, or if it has a percent sign as a pattern. -/
def ofText (text : String) : Except FormatError OutputFormat :=
  match named.lookup text with
  | some format => .ok format
  | none =>
    if text.toList.contains '%' then
      match Pattern.ofText? text with
      | some pattern => .ok (custom pattern)
      | none => .error (.invalidPattern text)
    else .error (.unknownFormat text)

/-- Year, month and day with dashes, then the time of day. -/
def sqlItems : List Item :=
  [.number .year .zero, .literal '-', .number .month .zero, .literal '-', .number .day .zero,
    .literal ' '] ++ clockItems

/-- Weekday, month, day without a leading zero, and year. -/
def humanItems : List Item :=
  [.text .weekdayName, .literal ',', .literal ' ', .text .monthName, .literal ' ',
    .number .day .none, .literal ',', .literal ' ', .number .year .zero]

/-- Year, month and day. -/
def compactItems : List Item :=
  [.number .year .zero, .number .month .zero, .number .day .zero]

/-- What a format shows of a reading, unless it cannot be written. -/
def write (format : OutputFormat) (r : Reading) : Except RenderError (List Char) :=
  match format with
  | iso | json => r.writeRfc3339 false
  | sql => orUnwritable (writeItems? r sqlItems)
  | timestamp => .ok (Text.signed r.unix)
  | human => orUnwritable (writeItems? r humanItems)
  | compact => orUnwritable (writeItems? r compactItems)
  | custom pattern => orUnwritable (pattern.write? r)

/-- An instant as a format shows it in a zone. -/
def render (format : OutputFormat) (z : Zone) (i : Instant) : Except RenderError (List Char) :=
  format.write (z.reading i)

end OutputFormat

end Almanac
