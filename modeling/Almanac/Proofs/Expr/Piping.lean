import Almanac.Proofs.Token.Continuation

/-!
# Expressions with a pipe after them

A pipe after an expression lets operations follow, whatever the expression ends with: no
keyword takes a pipe as its argument, and no date goes on with it.  So the text before the pipe
keeps its meaning, and the operations after it come last.

Main definitions:

- `NoNewArgument`: words that give a keyword before them no argument that others did not.

Main results:

- Theorem `IsPipeline.append`: operations with pipes before them, one after the other.
- Theorem `IsExpression.append`: an expression with operations after it.
- Theorem `parse_pipe`: the text after a variable and a pipe can stand after any other expression
  and a pipe.
-/

namespace Almanac

open Text

variable {ws us vs follow follow' : List Word} {op : Operation} {ops more : List Operation}
  {e base : Expr}

/-! ## What follows a keyword -/

/-- The first of the new words that follow is no argument, unless it was the first before. -/
def NoNewArgument (follow follow' : List Word) : Prop :=
  ∀ w ∈ follow'.head?, w.IsArgument → w ∈ follow.head?

/-- Behind the same words nothing is a new argument either. -/
theorem NoNewArgument.append_left (h : NoNewArgument follow follow') (us : List Word) :
    NoNewArgument (us ++ follow) (us ++ follow') := by
  cases us with
  | nil => exact h
  | cons u us => exact fun w hw _ => hw

/-- A pipeline is no argument of a keyword before it. -/
theorem IsPipeline.noNewArgument (h : IsPipeline vs more) (us : List Word) :
    NoNewArgument us (us ++ vs) := by
  have hvs : NoNewArgument [] vs := by
    intro w hw hargument
    cases h with
    | nil => cases hw
    | cons hpipe hop hops hmore =>
        cases hw
        simp [Word.IsArgument, hpipe] at hargument
  simpa using hvs.append_left us

section Follow

variable (hfollow : NoNewArgument follow follow')
include hfollow

/-- Only an argument behind a keyword changes what the keyword means. -/
theorem IsKeywordOperation.of_follow (h : IsKeywordOperation ws follow op) :
    IsKeywordOperation ws follow' op := by
  cases h with
  | withArgument hk ha => exact .withArgument hk ha
  | bare hk hbare => exact .bare hk fun w hw ha => hbare w (hfollow w hw ha) ha
  | boundary hk => exact .boundary hk

/-- An operation stays one if no new argument follows. -/
theorem IsOperation.of_follow (h : IsOperation ws follow op) : IsOperation ws follow' op := by
  cases h with
  | shift hsign hquantity => exact .shift hsign hquantity
  | signed hw hsign htext => exact .signed hw hsign htext
  | unsigned hw hsign => exact .unsigned hw hsign
  | keyword h => exact .keyword (h.of_follow hfollow)

/-- A date in its place stays one if no new argument follows. -/
theorem IsPrimary.of_follow (h : IsPrimary ws follow e) : IsPrimary ws follow' e := by
  cases h with
  | var hw => exact .var hw
  | literal hw => exact .literal hw
  | day hw => exact .day hw
  | shift hsign hquantity => exact .shift hsign hquantity
  | operation h => exact .operation (h.of_follow hfollow)

/-- A range stays one if no new argument follows. -/
theorem IsBase.of_follow (h : IsBase ws follow base) : IsBase ws follow' base := by
  cases h with
  | single h => exact .single (h.of_follow hfollow)
  | range hstart hdots hstop =>
      -- The words after the start begin with the dots, whatever follows the range.
      have hstart' := hstart.of_follow ((hfollow.append_left _).append_left [_])
      exact .range hstart' hdots (hstop.of_follow hfollow)

/-- A run stays one if no new argument follows its last operation. -/
theorem IsRun.of_follow (h : IsRun ws follow ops) : IsRun ws follow' ops := by
  induction h with
  | nil => exact .nil
  | @cons ws us follow op ops hop hops ih =>
      exact .cons (hop.of_follow (hfollow.append_left us)) (ih hfollow)

end Follow

/-! ## Pipelines -/

/-- Two pipelines are one. -/
theorem IsPipeline.append (h : IsPipeline us ops) (hmore : IsPipeline vs more) :
    IsPipeline (us ++ vs) (ops ++ more) := by
  induction h with
  | nil => exact hmore
  | cons hpipe hop hops _ ih =>
      have hop' := hop.of_follow ((hmore.noNewArgument _).append_left _)
      have hops' := hops.of_follow (hmore.noNewArgument _)
      simpa using IsPipeline.cons hpipe hop' hops' ih

/-- An expression goes on with a pipeline. -/
theorem IsExpression.append (h : IsExpression ws e) (hmore : IsPipeline vs more) :
    ∃ (base : Expr) (ops : List Operation), e = base.piped ops ∧
      IsExpression (ws ++ vs) (base.piped (ops ++ more)) := by
  obtain ⟨front, us, ps, base, run, ops, rfl, rfl, hbase, hrun, hops⟩ := h.exists_piped
  refine ⟨base, run ++ ops, rfl, ?_⟩
  have hbase' := hbase.of_follow ((hmore.noNewArgument ps).append_left us)
  have hrun' := hrun.of_follow (hmore.noNewArgument ps)
  simpa using isExpression_piped hbase' hrun' (hops.append hmore)

/-- An operation does not begin with a pipe. -/
theorem IsOperation.exists_cons (h : IsOperation ws follow op) :
    ∃ w us, ws = w :: us ∧ w.kind ≠ .pipe := by
  cases h with
  | shift hsign hquantity => exact ⟨_, _, rfl, by simp [hsign]⟩
  | signed hw hsign htext => exact ⟨_, _, rfl, by simp [hw]⟩
  | unsigned hw hsign => exact ⟨_, _, rfl, by simp [hw]⟩
  | keyword h =>
      obtain ⟨k, us, hws, hk⟩ := h.exists_cons
      exact ⟨k, us, hws, by simp [hk]⟩

/-! ## Variables with a pipe after them -/

section Variable

variable {name pipe : Word} (hname : name.kind = .var) (hpipe : pipe.kind = .pipe)
include hname

/-- A variable is a date by itself. -/
theorem IsPrimary.eq_var (h : IsPrimary ws follow e) (hws : ws ++ us = name :: vs) :
    ws = [name] ∧ e = .var name.text := by
  cases h with
  | var hw =>
      obtain ⟨rfl, -⟩ := List.cons.inj hws
      exact ⟨rfl, rfl⟩
  | literal hw =>
      obtain ⟨rfl, -⟩ := List.cons.inj hws
      simp [Word.IsLiteral, hname] at hw
  | day hw =>
      obtain ⟨rfl, -⟩ := List.cons.inj hws
      simp [Word.IsDay, hname] at hw
  | shift hsign hquantity =>
      obtain ⟨rfl, -⟩ := List.cons.inj hws
      simp [hname] at hsign
  | operation h =>
      obtain ⟨k, after, rfl, hk⟩ := h.exists_cons
      obtain ⟨rfl, -⟩ := List.cons.inj hws
      simp [hname] at hk

include hpipe

/-- A variable with a pipe behind it is a base by itself. -/
theorem IsBase.eq_var (h : IsBase ws follow base) (hws : ws ++ us = name :: pipe :: vs) :
    ws = [name] ∧ base = .var name.text := by
  cases h with
  | single h => exact h.eq_var hname hws
  | range hstart hdots hstop =>
      rw [List.append_assoc] at hws
      obtain ⟨rfl, -⟩ := hstart.eq_var hname hws
      obtain ⟨-, hpipe'⟩ := List.cons.inj hws
      obtain ⟨rfl, -⟩ := List.cons.inj hpipe'
      rw [hpipe] at hdots
      cases hdots

/-- After a variable and a pipe there are operations. -/
theorem IsExpression.of_var (h : IsExpression (name :: pipe :: vs) e) :
    ∃ op ops, e = .pipe (.var name.text) (op :: ops) ∧ IsPipeline (pipe :: vs) (op :: ops) := by
  obtain ⟨front, us, ps, base, run, more, hws, rfl, hbase, hrun, hmore⟩ := h.exists_piped
  rw [List.append_assoc] at hws
  obtain ⟨rfl, rfl⟩ := hbase.eq_var hname hpipe hws.symm
  have hpipes : pipe :: vs = us ++ ps := (List.cons.inj hws).2
  cases hrun with
  | nil =>
      rw [hpipes, List.nil_append]
      rw [List.nil_append] at hpipes
      subst hpipes
      cases hmore with
      | cons hpipe hop hops hmore => exact ⟨_, _, rfl, .cons hpipe hop hops hmore⟩
  | cons hop hops =>
      obtain ⟨w, after, rfl, hw⟩ := hop.exists_cons
      obtain ⟨rfl, -⟩ := List.cons.inj hpipes
      exact absurd hpipe hw

end Variable

/-! ## Texts with a pipe after them -/

section Texts

variable {name front back : String} {a b : Expr}

/-- A variable and a pipe are two tokens, and what comes after them is read by itself. -/
theorem tokensFrom_variable (hname : Shape .var name.toList) (cs : List Char) :
    ∃ stop start, tokensFrom 0 (name.toList ++ (" | ".toList ++ cs)) =
      ((tokensFrom start cs).map (⟨.pipe, "|", stop⟩ :: ·)).map (⟨.var, name, 0⟩ :: ·) := by
  have hends : EndsWord (" | ".toList ++ cs) := EndsWord.cons rfl _
  obtain ⟨c, after, htext, hblank, hread⟩ := Lexeme.read_of_shape hname hends nofun
  have hspace : ∀ c ∈ [' '], isAsciiBlank c = true := List.forall_mem_singleton.2 rfl
  have hvar : Lexeme.token ⟨.var, name.toList, " | ".toList ++ cs⟩ 0 = ⟨.var, name, 0⟩ := by
    simp [Lexeme.token]
  have hpipe (pos : Nat) : tokensFrom pos (" | ".toList ++ cs) =
      (tokensFrom (pos + 3) cs).map (⟨.pipe, "|", pos + 1⟩ :: ·) := by
    have hread : Lexeme.read '|' (' ' :: cs) = .ok ⟨.pipe, ['|'], ' ' :: cs⟩ := rfl
    have hbar := tokensFrom_of_read (pos + 1) rfl hread
    have hlast : tokensFrom (pos + 2) (' ' :: cs) = tokensFrom (pos + 3) cs :=
      tokensFrom_blanks (pos + 2) hspace
    exact (tokensFrom_blanks pos hspace).trans (hbar.trans (congrArg _ hlast))
  refine ⟨byteLength name.toList + 1, byteLength name.toList + 3, ?_⟩
  rw [htext, List.cons_append, tokensFrom_of_read 0 hblank hread, hvar, hpipe, Nat.zero_add, htext]

/-- What stands after a variable and a pipe is operations, and these can stand after any other
expression and a pipe. -/
theorem parse_pipe (hname : Shape .var name.toList) (ha : parse front = .ok a)
    (hb : parse (name ++ " | " ++ back) = .ok b) :
    ∃ (base : Expr) (ops : List Operation) (op : Operation) (more : List Operation),
      a = base.piped ops ∧ b = .pipe (.var name) (op :: more) ∧
        parse (front ++ " | " ++ back) = .ok (base.piped (ops ++ op :: more)) := by
  obtain ⟨tokens, htokens, hvalid, hexpr⟩ := exists_tokens_of_parse ha
  obtain ⟨tokens', htokens', hvalid', hexpr'⟩ := exists_tokens_of_parse hb
  obtain ⟨stop, start, hvariable⟩ := tokensFrom_variable hname back.toList
  simp only [String.toList_append, List.append_assoc] at htokens'
  rw [hvariable] at htokens'
  cases htail : tokensFrom start back.toList with
  | error error =>
      rw [htail] at htokens'
      cases htokens'
  | ok tail =>
      rw [htail] at htokens'
      obtain rfl := Except.ok.inj htokens'
      have hwords : words (beforeEof (⟨.var, name, 0⟩ :: ⟨.pipe, "|", stop⟩ :: tail)) =
          ⟨.var, name⟩ :: ⟨.pipe, "|"⟩ :: words (beforeEof tail) := rfl
      rw [hwords] at hvalid' hexpr'
      obtain ⟨op, more, hvar, hpipeline⟩ := hexpr'.of_var rfl rfl
      obtain ⟨base, ops, hpiped, hwhole⟩ := hexpr.append hpipeline
      refine ⟨base, ops, op, more, hpiped, hvar, ?_⟩
      obtain ⟨-, hpipe⟩ := List.forall_mem_cons.1 hvalid'
      have hback := scans_append htail EndsDate.nil.endsLexeme Scans.nil
      rw [List.append_nil, List.append_nil] at hback
      have hbar := hback.space.word (List.forall_mem_cons.1 hpipe).1 (EndsWord.cons rfl _) nofun
      have hends : EndsDate (" | ".toList ++ back.toList) := EndsDate.space_of_head rfl rfl
      have hscans := scans_append htokens hends.endsLexeme hbar.space
      rw [parse, String.toList_append, String.toList_append, List.append_assoc]
      exact (hscans.parseChars_eq_ok_iff (List.forall_mem_append.2 ⟨hvalid, hpipe⟩)).2 hwhole

end Texts

end Almanac
