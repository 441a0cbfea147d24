/-!
# Tokens

The words of the expression language.  A token knows its kind, its text and the byte
of the source at which it starts; keywords are in lower case, every other token has
the text of the source.

Main definitions:

- `TokenKind`, `Token`: the kinds of token, and a token.
- `LexError`: why a text cannot be cut into tokens, and where.
- `dayKeywords`, `keywords`: the words with a meaning of their own.
-/

namespace Almanac

/-- The kinds of token. -/
inductive TokenKind where
  /-- The end of the source. -/
  | eof
  /-- An ISO date, or a word that is not a keyword. -/
  | date
  /-- A time of day, `HH:MM` or `HH:MM:SS`. -/
  | time
  /-- A plus or minus sign that no digit follows. -/
  | operator
  /-- A number with a sign, a unit or both. -/
  | unit
  /-- A number with neither. -/
  | number
  | pipe
  /-- Three dots. -/
  | range
  /-- A dollar sign and a name. -/
  | var
  | keyword
  | comma
  | lparen
  | rparen
deriving DecidableEq, Repr

/-- A word of the expression language. -/
structure Token where
  kind : TokenKind
  /-- The text of the source, keywords in lower case. -/
  text : String
  /-- The byte of the source at which the token starts. -/
  pos : Nat
deriving DecidableEq, Repr

/-! ## Keywords -/

/-- The keywords that are dates by themselves. -/
def dayKeywords : List String :=
  ["today", "now", "yesterday", "tomorrow", "monday", "tuesday", "wednesday", "thursday",
    "friday", "saturday", "sunday"]

/-- All keywords. -/
def keywords : List String :=
  dayKeywords ++
    ["start", "end", "startof", "endof", "startofday", "endofday", "startofweek", "endofweek",
      "startofmonth", "endofmonth", "startofyear", "endofyear", "startofquarter",
      "endofquarter", "startofhour", "endofhour", "startofminute", "endofminute",
      "startofsecond", "endofsecond", "round", "trunc", "day", "time", "month", "year",
      "week", "quarter", "hour", "minute", "second"]

/-! ## Lexical errors -/

/-- What is wrong with a text that cannot be cut into tokens. -/
inductive LexFlaw where
  /-- No token starts with this character. -/
  | unexpectedCharacter (found : Char)
  /-- A dot that does not begin three dots. -/
  | malformedRange
  /-- A date that goes on as no date does; the text is what was read of it. -/
  | malformedIsoDate (text : String)
deriving DecidableEq, Repr

/-- A flaw and the byte of the source at which it was found. -/
structure LexError where
  flaw : LexFlaw
  pos : Nat
deriving DecidableEq, Repr

/-- The text shown for a lexical error. -/
def LexError.message (e : LexError) : String :=
  match e.flaw with
  | .unexpectedCharacter found =>
    "unexpected character '" ++ String.singleton found ++ "' at position " ++ toString e.pos
  | .malformedRange =>
    "malformed range operator at position " ++ toString e.pos ++ ": expected '...'"
  | .malformedIsoDate text =>
    "malformed ISO date '" ++ text ++ "' at position " ++ toString e.pos

end Almanac
