import Almanac.Proofs.Expr.ViablePrefix
import Almanac.Proofs.Token.Placement

/-!
# Expressions at other places

The readers of expressions look at the kinds and the texts of tokens and not at their places.  So
moved tokens are the same expression, or have the same error with the tokens in it moved.

Main definitions:

- `ParseError.moved`: an error about tokens that start so many bytes later.
- `Parsed.moved`: what a reader gives back, for tokens that start so many bytes later.
- `Placeless`: a reader that gives back the same for moved tokens.

Main results:

- Theorem `Placeless.andThen`: one reader after another.
- Theorem `placeless_read`: the reader of expressions is no judge of places.
- Theorem `parseTokens_map_moved`: what moved tokens are.
-/

namespace Almanac

variable {n : Nat} {t : Token} {ts : List Token}

/-- An error about tokens that start `n` bytes later. -/
def ParseError.moved (n : Nat) : ParseError → ParseError
  | .lex error => .lex (error.moved n)
  | .emptyExpression => .emptyExpression
  | .unexpectedEnd => .unexpectedEnd
  | .unexpectedToken token => .unexpectedToken (token.moved n)
  | .missingOperand operator => .missingOperand (operator.moved n)
  | .unknownKeyword keyword => .unknownKeyword (keyword.moved n)
  | .trailingInput token => .trailingInput (token.moved n)
  | .invalidTransform parts => .invalidTransform parts
  | .transformPart side cause => .transformPart side (cause.moved n)

/-- What a reader gives back for tokens that start `n` bytes later: the same value, or the error
about the moved tokens, and the moved rest. -/
def Parsed.moved {α : Type} (n : Nat) (r : Parsed α) : Parsed α :=
  (r.1.mapError (ParseError.moved n), r.2.map (Token.moved n))

section Readers

variable {α β : Type} {reader : List Token → Parsed α} {next : α → List Token → Parsed β}

/-- A reader that gives back the same for moved tokens. -/
def Placeless (n : Nat) (reader : List Token → Parsed α) : Prop :=
  ∀ ts, reader (ts.map (Token.moved n)) = (reader ts).moved n

/-- A result is moved before the next reader or after it. -/
theorem Parsed.moved_andThen (r : Parsed α) (hnext : ∀ a, Placeless n (next a)) :
    (r.moved n).andThen next = (r.andThen next).moved n := by
  obtain ⟨outcome, rest⟩ := r
  cases outcome with
  | error e => rfl
  | ok a => exact hnext a rest

/-- Two readers in turn read moved tokens as both of them do. -/
theorem Placeless.andThen (hreader : Placeless n reader) (hnext : ∀ a, Placeless n (next a)) :
    Placeless n fun ts => (reader ts).andThen next := by
  intro ts
  change (reader (ts.map (Token.moved n))).andThen next = _
  rw [hreader ts, Parsed.moved_andThen _ hnext]

theorem Placeless.map (hreader : Placeless n reader) (f : α → β) :
    Placeless n fun ts => (reader ts).map f :=
  hreader.andThen fun _ _ => rfl

end Readers

/-! ## The readers of an expression -/

/-- What follows a sign, if only the text of the quantity counts. -/
theorem placeless_operand {α : Type} {f : Token → α} (hf : ∀ q, f (q.moved n) = f q) (t : Token)
    (ts : List Token) :
    (operand (t.moved n) (ts.map (Token.moved n))).map f = ((operand t ts).map f).moved n := by
  cases ts with
  | nil => rfl
  | cons q ts =>
      by_cases hquantity : q.kind = .unit ∨ q.kind = .number
      · simp [operand, hquantity, Parsed.map, Parsed.andThen, Parsed.moved, Except.mapError, hf]
      · simp [operand, hquantity, Parsed.map, Parsed.andThen, Parsed.moved, Except.mapError,
          ParseError.moved]

/-- An operation with a moved keyword, from moved tokens. -/
theorem keywordOperation_moved (t : Token) (ts : List Token) :
    keywordOperation (t.moved n) (ts.map (Token.moved n)) = (keywordOperation t ts).moved n := by
  unfold keywordOperation
  rw [Token.text_moved]
  by_cases hkeyword : argumentKeywords.contains t.text = true
  · rw [if_pos hkeyword, if_pos hkeyword]
    cases ts with
    | nil => rfl
    | cons a ts =>
        have hmoved : isArgument (a.moved n) = isArgument a := rfl
        simp only [List.map_cons]
        rw [hmoved]
        by_cases ha : isArgument a = true
        · rw [if_pos ha, if_pos ha]
          rfl
        · rw [if_neg ha, if_neg ha]
          rfl
  · rw [if_neg hkeyword, if_neg hkeyword]
    by_cases hboundary : isBoundaryKeyword t.text = true
    · rw [if_pos hboundary, if_pos hboundary]
      rfl
    · rw [if_neg hboundary, if_neg hboundary]
      rfl

/-- Operations are read the same wherever they stand. -/
theorem placeless_operation : Placeless n operation := by
  intro ts
  cases ts with
  | nil => rfl
  | cons t ts =>
      simp only [List.map_cons, operation, Token.kind_moved]
      split
      · exact placeless_operand (fun _ => rfl) t ts
      · rfl
      · exact keywordOperation_moved t ts
      · rfl

/-- Dates in their place are read the same wherever they stand. -/
theorem placeless_primary : Placeless n primary := by
  intro ts
  cases ts with
  | nil => rfl
  | cons t ts =>
      simp only [List.map_cons, primary, Token.kind_moved]
      split
      · rfl
      · rw [Token.text_moved]
        by_cases hday : dayKeywords.contains t.text = true
        · rw [if_pos hday, if_pos hday]
          rfl
        · rw [if_neg hday, if_neg hday]
          exact placeless_operation.map Expr.operation (t :: ts)
      · rfl
      · rfl
      · rfl
      · exact placeless_operand (fun _ => rfl) t ts
      · rfl

/-- The second side of a range is read the same wherever it stands. -/
theorem placeless_rangeTail (start : Expr) : Placeless n (rangeTail start) := by
  intro ts
  cases ts with
  | nil => rfl
  | cons t ts =>
      rw [List.map_cons, rangeTail, rangeTail, Token.kind_moved]
      by_cases hdots : t.kind = .range
      · rw [if_pos hdots, if_pos hdots]
        exact placeless_primary.map start.range ts
      · rw [if_neg hdots, if_neg hdots]
        rfl

/-- The loop over operations does not depend on where they stand. -/
theorem placeless_operations : Placeless n operations := by
  intro ts
  fun_induction operations ts with
  | case1 =>
      rw [List.map_nil, operations]
      rfl
  | case2 t ts hpipe error after hop =>
      have hpipe : (t.moved n).kind = .pipe := hpipe
      rw [List.map_cons, operations_cons_of_pipe hpipe, placeless_operation ts, hop]
      rfl
  | case3 t ts hpipe op after hop hlt ih =>
      have hpipe : (t.moved n).kind = .pipe := hpipe
      rw [List.map_cons, operations_cons_of_pipe hpipe, placeless_operation ts, hop]
      change (operations (after.map (Token.moved n))).map (op :: ·) = _
      rw [ih, Parsed.map, Parsed.map, Parsed.moved_andThen _ fun _ _ => rfl]
  | case4 t ts hpipe hstarts error after hop =>
      have hpipe : (t.moved n).kind ≠ .pipe := hpipe
      have hstarts : startsOperation (t.moved n) = true := hstarts
      rw [List.map_cons, operations_cons_of_startsOperation hpipe hstarts, ← List.map_cons,
        placeless_operation, hop]
      rfl
  | case5 t ts hpipe hstarts op after hop hlt ih =>
      have hpipe : (t.moved n).kind ≠ .pipe := hpipe
      have hstarts : startsOperation (t.moved n) = true := hstarts
      rw [List.map_cons, operations_cons_of_startsOperation hpipe hstarts, ← List.map_cons,
        placeless_operation, hop]
      change (operations (after.map (Token.moved n))).map (op :: ·) = _
      rw [ih, Parsed.map, Parsed.map, Parsed.moved_andThen _ fun _ _ => rfl]
  | case6 t ts hpipe hstarts =>
      have hpipe : ¬ (t.moved n).kind = .pipe := hpipe
      have hstarts : ¬ startsOperation (t.moved n) = true := hstarts
      rw [List.map_cons, operations, if_neg hpipe, if_neg hstarts]
      rfl

/-- An expression is read the same wherever it stands. -/
theorem placeless_expression : Placeless n expression :=
  placeless_primary.andThen fun start =>
    (placeless_rangeTail start).andThen fun base => placeless_operations.map base.piped

/-- What is left behind an expression is found wherever it stands. -/
theorem placeless_read : Placeless n Expr.read := by
  intro ts
  cases ts with
  | nil => rfl
  | cons t ts =>
      have hatEnd (e : Expr) : Placeless n (atEnd e) := by
        intro ts
        cases ts <;> rfl
      rw [List.map_cons, read_cons, read_cons]
      exact placeless_expression.andThen hatEnd (t :: ts)

/-- Moved tokens are the same expression, or have the same error about moved tokens. -/
theorem parseTokens_map_moved (n : Nat) (ts : List Token) :
    parseTokens (ts.map (Token.moved n)) = (parseTokens ts).mapError (ParseError.moved n) := by
  rw [parseTokens, beforeEof_map_moved, placeless_read]
  rfl

end Almanac
