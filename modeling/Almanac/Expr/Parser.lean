import Almanac.Expr.Basic
import Almanac.Token.Lexer

/-!
# Reading expressions

An expression is read from tokens, from left to right:

    expression  = primary ['...' primary] (['|'] operation)*
    primary     = variable | day keyword | date | time | quantity | sign quantity | operation
    operation   = sign quantity | quantity | keyword [argument]

Every reader takes the tokens not yet read and gives back a value or an error, together
with the tokens that are left.  The readers know no token for the end: a list of tokens
is read up to the first of them.

Main definitions:

- `ParseError`: why tokens are not an expression.
- `Expr.read`: an expression that takes up all tokens.
- `parse`, `parseTransform`: from text to an expression or a transform.
- Theorem `length_operation_lt`: an operation takes at least one token.
-/

namespace Almanac

open Text

/-! ## Errors -/

/-- The two sides of a transform. -/
inductive Side where
  | start | stop
deriving DecidableEq, Repr

/-- The name of a side. -/
def Side.name : Side → String
  | start => "begin"
  | stop => "end"

/-- Why a text is not an expression. -/
inductive ParseError where
  /-- The text cannot be cut into tokens. -/
  | lex (error : LexError)
  /-- There is no token. -/
  | emptyExpression
  /-- The tokens end where more is needed. -/
  | unexpectedEnd
  /-- A token of a kind that cannot stand where it does. -/
  | unexpectedToken (token : Token)
  /-- A sign that no quantity follows. -/
  | missingOperand (operator : Token)
  /-- A keyword that is not an operation. -/
  | unknownKeyword (keyword : Token)
  /-- The first token after the end of an expression. -/
  | trailingInput (token : Token)
  /-- A transform with a number of parts other than two. -/
  | invalidTransform (parts : Nat)
  /-- A transform with a side that is not an expression. -/
  | transformPart (side : Side) (cause : ParseError)
deriving DecidableEq, Repr

/-- The text of a token and the place where it starts. -/
private def described (t : Token) : String :=
  "'" ++ t.text ++ "' at position " ++ toString t.pos

/-- The text shown for a parse error. -/
def ParseError.message : ParseError → String
  | lex error => error.message
  | emptyExpression => "empty expression"
  | unexpectedEnd => "unexpected end of expression"
  | unexpectedToken token => "unexpected token " ++ described token
  | missingOperand operator =>
    "expected unit or number after operator " ++ described operator
  | unknownKeyword keyword => "unknown operation keyword " ++ described keyword
  | trailingInput token => "unexpected trailing input " ++ described token
  | invalidTransform parts =>
    "transform must have exactly two parts separated by comma, found " ++ toString parts
  | transformPart side cause =>
    "failed to parse transform " ++ side.name ++ " expression: " ++ cause.message

/-! ## Readers -/

/-- A value or an error, and the tokens that are left. -/
abbrev Parsed (α : Type) := Except ParseError α × List Token

namespace Parsed

/-- Go on with what is left after a value; an error is final. -/
def andThen {α β : Type} (r : Parsed α) (next : α → List Token → Parsed β) : Parsed β :=
  match r with
  | (.ok a, rest) => next a rest
  | (.error e, rest) => (.error e, rest)

/-- Change the value that was read. -/
def map {α β : Type} (f : α → β) (r : Parsed α) : Parsed β :=
  r.andThen fun a rest => (.ok (f a), rest)

end Parsed

/-- The tokens before the end of the source. -/
def beforeEof (tokens : List Token) : List Token :=
  tokens.takeWhile (·.kind ≠ .eof)

/-- The keywords that take the token after them as their argument, if it can be one. -/
def argumentKeywords : List String :=
  ["day", "time", "round", "trunc"]

/-- Whether a token can be the argument of a keyword. -/
def isArgument (t : Token) : Bool :=
  t.kind = .number || t.kind = .time || t.kind = .keyword

/-- Whether a keyword names the start or the end of a period. -/
def isBoundaryKeyword (keyword : String) : Bool :=
  "startof".toList.isPrefixOf keyword.toList || "endof".toList.isPrefixOf keyword.toList ||
    keyword == "start" || keyword == "end"

/-- Whether an operation can start with a token. -/
def startsOperation (t : Token) : Bool :=
  t.kind = .operator || t.kind = .unit || t.kind = .keyword

/-- The quantity that has to follow a sign. -/
def operand (operator : Token) : List Token → Parsed Token
  | [] => (.error (.missingOperand operator), [])
  | t :: rest =>
    if t.kind = .unit ∨ t.kind = .number then (.ok t, rest)
    else (.error (.missingOperand operator), t :: rest)

/-- The shift that a quantity stands for: its sign, or plus if it has none, and the rest. -/
def shiftOperation (text : String) : Operation :=
  match text.toList with
  | '-' :: rest => { op := "-", value := String.ofList rest }
  | '+' :: rest => { op := "+", value := String.ofList rest }
  | _ => { op := "+", value := text }

/-- The operation of a keyword that has just been read. -/
def keywordOperation (keyword : Token) (rest : List Token) : Parsed Operation :=
  if argumentKeywords.contains keyword.text then
    match rest with
    | argument :: afterArgument =>
      if isArgument argument then
        (.ok { op := keyword.text, value := argument.text }, afterArgument)
      else (.ok { op := keyword.text, value := "" }, rest)
    | [] => (.ok { op := keyword.text, value := "" }, [])
  else if isBoundaryKeyword keyword.text then
    (.ok { op := keyword.text, value := "" }, rest)
  else (.error (.unknownKeyword keyword), rest)

/-- An operation. -/
def operation : List Token → Parsed Operation
  | [] => (.error .unexpectedEnd, [])
  | t :: rest =>
    match t.kind with
    | .operator => (operand t rest).map fun quantity => { op := t.text, value := quantity.text }
    | .unit => (.ok (shiftOperation t.text), rest)
    | .keyword => keywordOperation t rest
    | _ => (.error (.unexpectedToken t), t :: rest)

/-- A date, a variable or an operation in their place. -/
def primary : List Token → Parsed Expr
  | [] => (.error .unexpectedEnd, [])
  | t :: rest =>
    match t.kind with
    | .var => (.ok (.var t.text), rest)
    | .keyword =>
      if dayKeywords.contains t.text then (.ok (.date t.text), rest)
      else (operation (t :: rest)).map .operation
    | .date | .time | .unit => (.ok (.date t.text), rest)
    | .operator => (operand t rest).map fun quantity => .date (t.text ++ quantity.text)
    | _ => (.error (.unexpectedToken t), t :: rest)

/-- The second side of a range, if three dots follow the first. -/
def rangeTail (start : Expr) : List Token → Parsed Expr
  | [] => (.ok start, [])
  | t :: rest =>
    if t.kind = .range then (primary rest).map (.range start) else (.ok start, t :: rest)

/-- An operation takes at least one token. -/
theorem length_operation_lt {ts rest : List Token} {op : Operation}
    (h : operation ts = (.ok op, rest)) : rest.length < ts.length := by
  unfold operation at h
  split at h
  · cases h
  · split at h
    · rename_i t after _
      unfold operand at h
      split at h
      · cases h
      · split at h
        · cases h
          simp only [List.length_cons]
          omega
        · cases h
    · cases h
      simp only [List.length_cons]
      omega
    · unfold keywordOperation at h
      split at h
      · split at h
        · split at h
          · cases h
            simp only [List.length_cons]
            omega
          · cases h
            simp only [List.length_cons]
            omega
        · cases h
          simp only [List.length_cons]
          omega
      · split at h
        · cases h
          simp only [List.length_cons]
          omega
        · cases h
    · cases h

/-- All operations that follow, each with a pipe before it or without. -/
def operations : List Token → Parsed (List Operation)
  | [] => (.ok [], [])
  | t :: rest =>
    if t.kind = .pipe then
      match hop : operation rest with
      | (.error e, after) => (.error e, after)
      | (.ok op, after) =>
        have := length_operation_lt hop
        (operations after).map (op :: ·)
    else if startsOperation t then
      match hop : operation (t :: rest) with
      | (.error e, after) => (.error e, after)
      | (.ok op, after) =>
        have := length_operation_lt hop
        (operations after).map (op :: ·)
    else (.ok [], t :: rest)
termination_by ts => ts.length
decreasing_by all_goals simp_all <;> omega

/-- An expression at the start of the tokens. -/
def expression (ts : List Token) : Parsed Expr :=
  (primary ts).andThen fun start rest =>
    (rangeTail start rest).andThen fun base rest =>
      (operations rest).map base.piped

/-- An expression that takes up all tokens. -/
def Expr.read : List Token → Parsed Expr
  | [] => (.error .emptyExpression, [])
  | t :: ts =>
    (expression (t :: ts)).andThen fun e rest =>
      match rest with
      | [] => (.ok e, [])
      | trailing :: _ => (.error (.trailingInput trailing), rest)

/-! ## From text -/

/-- The expression that a list of tokens is, up to its end. -/
def parseTokens (tokens : List Token) : Except ParseError Expr :=
  (Expr.read (beforeEof tokens)).1

/-- The expression that a list of characters is. -/
def parseChars (cs : List Char) : Except ParseError Expr :=
  match tokensFrom 0 cs with
  | .error e => .error (.lex e)
  | .ok tokens => parseTokens tokens

/-- The expression that a text is. -/
def parse (source : String) : Except ParseError Expr :=
  parseChars source.toList

/-- The parts of a text between its commas. -/
def splitAtCommas : List Char → List (List Char)
  | [] => [[]]
  | c :: cs =>
    if c = ',' then [] :: splitAtCommas cs
    else
      match splitAtCommas cs with
      | [] => [[c]]
      | part :: parts => (c :: part) :: parts

/-- One side of a transform. -/
def parseSide (side : Side) (cs : List Char) : Except ParseError Expr :=
  match parseChars (trim cs) with
  | .error e => .error (.transformPart side e)
  | .ok e => .ok e

/-- The transform that a text is: two expressions with a comma between them. -/
def parseTransform (source : String) : Except ParseError Transform :=
  match splitAtCommas source.toList with
  | [first, second] => do
    let start ← parseSide .start first
    let stop ← parseSide .stop second
    return { start, stop }
  | parts => .error (.invalidTransform parts.length)

end Almanac
