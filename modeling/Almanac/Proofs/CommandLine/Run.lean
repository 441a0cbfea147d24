import Almanac.CommandLine.Run
import Almanac.Proofs.Output.Listing
import Almanac.Proofs.Query
import Almanac.Proofs.Zone.Fixed

/-!
# The command prints all, nothing, or breaks off

Everything that can fail fails before the first line is printed.  So a run that fails has printed
nothing, and a run that does not fail has printed the value, or all steps that were asked for.
There is one other end of a run: it breaks off where it computes from a civil time that the
calendar does not cover.  If an evaluation does so, nothing has been printed; but what is written in
the notation of RFC 3339 is printed up to there.

Main definitions:

- `Arguments.Unanswered`: an expression that gets no answer.
- `Arguments.BreaksAt`: an expression whose answer breaks off, and what is printed before.
- `Arguments.BreaksOff`, `Arguments.Fails`, `Arguments.Answers`: the three ends of a run.

Main results:

- Theorems `ofAnswer_of_unanswered`, `ofAnswer_of_breaksAt`, `exists_text_of_answered`: an answer is
  printed not at all, up to where it breaks off, or as a whole.
- Theorem `Arguments.BreaksAt.not_inRange`: answers break off only where the calendar ends.
- Theorem `run_cases`: a run breaks off, or it fails, or it answers.
- Theorem `not_breaksOff_of_offset_zero`: no run breaks off in UTC.
- Theorem `run_whole`: the outcomes that a run of the command can have.
- Theorem `run_lastHour`: two runs that break off, one of them in the middle of its listing.
-/

namespace Almanac.CommandLine

variable {arguments : Arguments} {ctx : Context} {source : String} {i : Instant}
  {printed : List Char}

/-! ## Answers -/

/-- An expression that gets no answer: it cannot be read, has no value or no steps, or the format
has no written form for them. -/
inductive Arguments.Unanswered (arguments : Arguments) (ctx : Context) (source : String) : Prop
  | parse {error : ParseError} (h : parse source = .error error)
  | iterate {e : Expr} {error : QueryError} (hparse : Almanac.parse source = .ok e)
      (hsteps : arguments.asksForSteps e = true)
      (h : iterateText ctx source (arguments.each.getD "") arguments.transform = .error error)
      (hreported : ∀ i, ¬ error.BreaksAt i)
  | evaluate {e : Expr} {error : EvalError} (hparse : Almanac.parse source = .ok e)
      (hsteps : arguments.asksForSteps e = false) (h : Almanac.evaluate ctx e = .error error)
      (hreported : ∀ i, error ≠ .brokenOff i)
  | writeSteps {e : Expr} {steps : List Step} (hparse : Almanac.parse source = .ok e)
      (hsteps : arguments.asksForSteps e = true)
      (h : iterateText ctx source (arguments.each.getD "") arguments.transform = .ok steps)
      (hkept : arguments.keep ctx.zone steps ≠ []) (hformat : ¬ arguments.format.Writable)
  | writeValue {e : Expr} {i : Instant} (hparse : Almanac.parse source = .ok e)
      (hsteps : arguments.asksForSteps e = false) (h : Almanac.evaluate ctx e = .ok i)
      (hformat : ¬ arguments.format.Writable)

/-- An expression whose answer breaks off at the instant `i`, and the text that is printed before:
nothing where the evaluation breaks off, and what comes before `i` where the writing does. -/
inductive Arguments.BreaksAt (arguments : Arguments) (ctx : Context) (source : String)
    (i : Instant) : List Char → Prop
  | iterate {e : Expr} {error : QueryError} (hparse : parse source = .ok e)
      (hsteps : arguments.asksForSteps e = true)
      (h : iterateText ctx source (arguments.each.getD "") arguments.transform = .error error)
      (hbreak : error.BreaksAt i) : BreaksAt arguments ctx source i []
  | evaluate {e : Expr} (hparse : parse source = .ok e)
      (hsteps : arguments.asksForSteps e = false)
      (h : Almanac.evaluate ctx e = .error (.brokenOff i)) : BreaksAt arguments ctx source i []
  | writeSteps {e : Expr} {steps : List Step} {printed : List Char} (hparse : parse source = .ok e)
      (hsteps : arguments.asksForSteps e = true)
      (h : iterateText ctx source (arguments.each.getD "") arguments.transform = .ok steps)
      (hformat : arguments.format.Consults)
      (hprinted : RendersBefore arguments.format ctx.zone i (arguments.keep ctx.zone steps) printed) :
      BreaksAt arguments ctx source i printed
  | writeValue {e : Expr} (hparse : parse source = .ok e)
      (hsteps : arguments.asksForSteps e = false) (h : Almanac.evaluate ctx e = .ok i)
      (hformat : arguments.format.Consults) (hcovered : ¬ (ctx.zone.civil i).InRange) :
      BreaksAt arguments ctx source i (if arguments.format = .json then "\"".toList else [])

/-- An answer breaks off only where the calendar does not cover what the clocks show. -/
theorem Arguments.BreaksAt.not_inRange (h : arguments.BreaksAt ctx source i printed) :
    ¬ (ctx.zone.civil i).InRange := by
  cases h with
  | iterate _ _ h hbreak => exact not_inRange_of_iterateText h hbreak
  | evaluate _ _ h => exact failsBy_evaluate ctx _ _ h i rfl
  | writeSteps _ _ _ _ hprinted => exact hprinted.not_inRange
  | writeValue _ _ _ _ hcovered => exact hcovered

section Answers

variable {e : Expr} (hparse : parse source = .ok e)
include hparse

/-- The answer to an expression that asks for steps. -/
theorem answer_of_steps (hsteps : arguments.asksForSteps e = true) :
    arguments.answer ctx source =
      ((iterateText ctx source (arguments.each.getD "") arguments.transform).mapError
        (.evaluate source)).map fun steps =>
          writeSteps arguments.format ctx.zone (arguments.keep ctx.zone steps) := by
  rw [Arguments.answer, hparse]
  simp only [Except.mapError, bind, Except.bind, hsteps, if_true]
  cases iterateText ctx source (arguments.each.getD "") arguments.transform <;> rfl

/-- The answer to any other expression. -/
theorem answer_of_value (hsteps : arguments.asksForSteps e = false) :
    arguments.answer ctx source =
      ((evaluate ctx e).mapError fun error => .evaluate source (.eval error)).map
        (writeValue arguments.format ctx.zone) := by
  rw [Arguments.answer, hparse]
  simp only [Except.mapError, bind, Except.bind, hsteps, Bool.false_eq_true, if_false]
  cases evaluate ctx e <;> rfl

end Answers

/-! ## Outcomes of answers -/

/-- The evaluation of a text breaks off with the errors that are none. -/
theorem breaksOff_evaluate_iff {error : QueryError} :
    (Failure.evaluate source error).breaksOff = true ↔ ∃ i, error.BreaksAt i := by
  unfold QueryError.BreaksAt Failure.breaksOff
  split <;> simp_all

/-- Where there is no answer, nothing is printed. -/
theorem ofAnswer_of_unanswered (h : arguments.Unanswered ctx source) :
    ∃ report, Outcome.ofAnswer (arguments.answer ctx source) = { code := 1, stderr := report } := by
  cases h with
  | parse h => exact ⟨_, by rw [Arguments.answer, h]; rfl⟩
  | iterate hparse hsteps h hreported =>
      have hreport := mt (@breaksOff_evaluate_iff source _).1 (not_exists.2 hreported)
      rw [answer_of_steps hparse hsteps, h]
      exact ⟨_, if_neg hreport⟩
  | @evaluate e error hparse hsteps h hreported =>
      have hreport : ¬ (Failure.evaluate source (.eval error)).breaksOff = true := by
        rw [breaksOff_evaluate_iff]
        simpa [QueryError.BreaksAt] using hreported
      rw [answer_of_value hparse hsteps, h]
      exact ⟨_, if_neg hreport⟩
  | writeSteps hparse hsteps h hkept hformat =>
      refine ⟨(Failure.format .unwritable).report, ?_⟩
      rw [answer_of_steps hparse hsteps, h]
      simp only [Except.mapError, Except.map, writeSteps_of_not_writable ctx.zone hformat hkept]
      rfl
  | writeValue hparse hsteps h hformat =>
      refine ⟨(Failure.format .unwritable).report, ?_⟩
      rw [answer_of_value hparse hsteps, h]
      simp only [Except.mapError, Except.map, writeValue_of_not_writable ctx.zone _ hformat]
      rfl

/-- Where an answer breaks off, it is printed up to there. -/
theorem ofAnswer_of_breaksAt (h : arguments.BreaksAt ctx source i printed) :
    Outcome.ofAnswer (arguments.answer ctx source) =
      { code := 101, stdout := String.ofList printed } := by
  cases h with
  | iterate hparse hsteps h hbreak =>
      rw [answer_of_steps hparse hsteps, h]
      exact if_pos (breaksOff_evaluate_iff.2 ⟨i, hbreak⟩)
  | evaluate hparse hsteps h =>
      rw [answer_of_value hparse hsteps, h]
      rfl
  | writeSteps hparse hsteps h hformat hprinted =>
      rw [answer_of_steps hparse hsteps, h]
      simp only [Except.mapError, Except.map, writeSteps_of_rendersBefore hformat hprinted]
      rfl
  | writeValue hparse hsteps h hformat hcovered =>
      rw [answer_of_value hparse hsteps, h]
      simp only [Except.mapError, Except.map, writeValue_of_not_inRange hformat hcovered]
      rfl

/-- Where there is an answer and it does not break off, it is printed as a whole. -/
theorem exists_text_of_answered (h : ¬ arguments.Unanswered ctx source)
    (hbreak : ∀ i printed, ¬ arguments.BreaksAt ctx source i printed) :
    ∃ e text, parse source = .ok e ∧
      Outcome.ofAnswer (arguments.answer ctx source) =
        { code := 0, stdout := String.ofList text } ∧
      (arguments.asksForSteps e = true → ∃ steps,
        iterateText ctx source (arguments.each.getD "") arguments.transform = .ok steps ∧
        Renders arguments.format ctx.zone (arguments.keep ctx.zone steps) text) ∧
      (arguments.asksForSteps e = false → ∃ i, evaluate ctx e = .ok i ∧
        writeValue arguments.format ctx.zone i = { text := text }) := by
  cases hparse : parse source with
  | error error => exact absurd (.parse hparse) h
  | ok e =>
      cases hsteps : arguments.asksForSteps e with
      | true =>
          rw [answer_of_steps hparse hsteps]
          cases hiterate : iterateText ctx source (arguments.each.getD "") arguments.transform with
          | error error =>
              exact absurd (.iterate hparse hsteps hiterate fun i hi =>
                hbreak i [] (.iterate hparse hsteps hiterate hi)) h
          | ok steps =>
              have hwritable : arguments.keep ctx.zone steps = [] ∨ arguments.format.Writable := by
                by_contra hnot
                obtain ⟨hkept, hformat⟩ := not_or.1 hnot
                exact h (.writeSteps hparse hsteps hiterate hkept hformat)
              have hcovered (hformat : arguments.format.Consults) :
                  ∀ s ∈ arguments.keep ctx.zone steps, s.Covered ctx.zone := by
                by_contra hnot
                obtain ⟨i, printed, hprinted⟩ := exists_rendersBefore hformat hnot
                exact hbreak i printed (.writeSteps hparse hsteps hiterate hformat hprinted)
              obtain ⟨text, hrenders, htext⟩ := writeSteps_renders hwritable hcovered
              refine ⟨e, text, rfl, ?_, fun _ => ⟨steps, rfl, hrenders⟩, by simp [hsteps]⟩
              simp [Except.mapError, Except.map, Outcome.ofAnswer, Outcome.ofListing, htext]
      | false =>
          rw [answer_of_value hparse hsteps]
          cases hvalue : evaluate ctx e with
          | error error =>
              refine absurd (.evaluate hparse hsteps hvalue ?_) h
              rintro i rfl
              exact hbreak i [] (.evaluate hparse hsteps hvalue)
          | ok i =>
              have hwritable : arguments.format.Writable := by
                by_contra hformat
                exact h (.writeValue hparse hsteps hvalue hformat)
              have hcovered (hformat : arguments.format.Consults) : (ctx.zone.civil i).InRange := by
                by_contra hnot
                exact hbreak i _ (.writeValue hparse hsteps hvalue hformat hnot)
              obtain ⟨text, htext⟩ := exists_writeValue hwritable hcovered
              refine ⟨e, text, rfl, ?_, by simp [hsteps], fun _ => ⟨i, hvalue, htext⟩⟩
              simp [Except.mapError, Except.map, Outcome.ofAnswer, Outcome.ofListing, htext]

/-- The steps that are kept: all, but for those on a weekend if these are to be skipped. -/
theorem keep_eq (z : Zone) (steps : List Step) :
    arguments.keep z steps =
      steps.filter fun s => !(arguments.skipWeekends && startsOnWeekend z s) := by
  unfold Arguments.keep
  cases arguments.skipWeekends <;> simp

/-! ## Outcomes -/

section Outcomes

variable (arguments : Arguments) (zones : Zones) (now : Instant) (input : List UInt8)
  (terminal : Bool)

/-- A run that breaks off, having printed `printed`: its answer does. -/
def Arguments.BreaksOff (printed : List Char) : Prop :=
  ∃ source ctx i, arguments.question zones now input terminal = .ok (source, ctx) ∧
    arguments.BreaksAt ctx source i printed

/-- A run that fails: there is no expression, no zone or no answer. -/
def Arguments.Fails : Prop :=
  (∃ error, arguments.resolveExpression input terminal = .error error) ∨
    (∃ f, arguments.zone zones = .error f) ∨
    ∃ source ctx, arguments.question zones now input terminal = .ok (source, ctx) ∧
      arguments.Unanswered ctx source

/-- A run that prints `text` as the answer to the expression: all steps if it asks for them, and
its value if not. -/
def Arguments.Answers (text : List Char) : Prop :=
  ∃ source ctx e, arguments.question zones now input terminal = .ok (source, ctx) ∧
    parse source = .ok e ∧
    (arguments.asksForSteps e = true → ∃ steps,
      iterateText ctx source (arguments.each.getD "") arguments.transform = .ok steps ∧
      Renders arguments.format ctx.zone (arguments.keep ctx.zone steps) text) ∧
    (arguments.asksForSteps e = false → ∃ i, evaluate ctx e = .ok i ∧
      writeValue arguments.format ctx.zone i = { text := text })

variable {arguments}

/-- There is nothing to evaluate exactly where there is no expression or no zone. -/
theorem question_eq_error_iff :
    (∃ f, arguments.question zones now input terminal = .error f) ↔
      (∃ error, arguments.resolveExpression input terminal = .error error) ∨
        ∃ f, arguments.zone zones = .error f := by
  unfold Arguments.question
  cases arguments.resolveExpression input terminal <;> cases arguments.zone zones <;>
    simp [Except.mapError, bind, Except.bind, pure, Except.pure]

/-- Where there is no such zone, that is reported. -/
theorem breaksOff_of_zone {f : Failure} (h : arguments.zone zones = .error f) :
    f.breaksOff = false := by
  unfold Arguments.zone at h
  split at h
  · cases h
  · split at h
    · cases h
    · obtain ⟨error, -, rfl⟩ := mapError_eq_error_iff.1 h
      rfl

/-- Where there is nothing to evaluate, that is reported. -/
theorem breaksOff_of_question {f : Failure}
    (h : arguments.question zones now input terminal = .error f) : f.breaksOff = false := by
  simp only [Arguments.question, bind_eq_error_iff, mapError_eq_error_iff] at h
  rcases h with ⟨error, -, rfl⟩ | ⟨source, -, hzone | ⟨zone, -, hanswer⟩⟩
  · rfl
  · exact breaksOff_of_zone zones hzone
  · cases hanswer

/-- What a run does, where there is nothing to evaluate. -/
theorem run_of_question_error {f : Failure} (hlist : arguments.listTz = false)
    (h : arguments.question zones now input terminal = .error f) :
    arguments.run zones now input terminal = { code := 1, stderr := f.report } := by
  have hreport := breaksOff_of_question zones now input terminal h
  simp only [Arguments.run, hlist, h, Outcome.failed, hreport, Bool.false_eq_true, if_false]

/-- What a run does, once its expression is known. -/
theorem run_of_question (hlist : arguments.listTz = false)
    (h : arguments.question zones now input terminal = .ok (source, ctx)) :
    arguments.run zones now input terminal = .ofAnswer (arguments.answer ctx source) := by
  simp only [Arguments.run, hlist, h, Bool.false_eq_true, if_false]

/-- A run that breaks off has a code of its own, and has printed what comes before. -/
theorem run_of_breaksOff (hlist : arguments.listTz = false)
    (h : arguments.BreaksOff zones now input terminal printed) :
    arguments.run zones now input terminal = { code := 101, stdout := String.ofList printed } := by
  obtain ⟨source, ctx, i, hquestion, hbreak⟩ := h
  rw [run_of_question zones now input terminal hlist hquestion]
  exact ofAnswer_of_breaksAt hbreak

/-- A run that fails has printed nothing. -/
theorem run_of_fails (hlist : arguments.listTz = false)
    (h : arguments.Fails zones now input terminal) :
    ∃ report, arguments.run zones now input terminal = { code := 1, stderr := report } := by
  rcases or_assoc.2 h with hnothing | ⟨source, ctx, hquestion, hanswer⟩
  · obtain ⟨f, hf⟩ := (question_eq_error_iff zones now input terminal).2 hnothing
    exact ⟨f.report, run_of_question_error zones now input terminal hlist hf⟩
  · rw [run_of_question zones now input terminal hlist hquestion]
    exact ofAnswer_of_unanswered hanswer

/-- A run that does not break off and does not fail answers and prints all. -/
theorem exists_answers (hlist : arguments.listTz = false)
    (hwhole : ∀ printed, ¬ arguments.BreaksOff zones now input terminal printed)
    (hfails : ¬ arguments.Fails zones now input terminal) :
    ∃ text, arguments.Answers zones now input terminal text ∧
      arguments.run zones now input terminal = { code := 0, stdout := String.ofList text } := by
  cases hquestion : arguments.question zones now input terminal with
  | error f =>
      have hnothing := (question_eq_error_iff zones now input terminal).1 ⟨f, hquestion⟩
      exact absurd (or_assoc.1 (.inl hnothing)) hfails
  | ok asked =>
      obtain ⟨source, ctx⟩ := asked
      have hanswer (h : arguments.Unanswered ctx source) : False :=
        hfails (.inr (.inr ⟨source, ctx, hquestion, h⟩))
      obtain ⟨e, text, hparse, houtcome, hsteps⟩ := exists_text_of_answered hanswer
        fun i printed hbreak => hwhole printed ⟨source, ctx, i, hquestion, hbreak⟩
      rw [run_of_question zones now input terminal hlist hquestion]
      exact ⟨text, ⟨source, ctx, e, hquestion, hparse, hsteps⟩, houtcome⟩

/-- A run breaks off, or it fails and prints nothing, or it answers and prints all. -/
theorem run_cases (hlist : arguments.listTz = false) :
    (∃ printed, arguments.BreaksOff zones now input terminal printed ∧
      ¬ arguments.Fails zones now input terminal ∧
      arguments.run zones now input terminal =
        { code := 101, stdout := String.ofList printed }) ∨
    ((∀ printed, ¬ arguments.BreaksOff zones now input terminal printed) ∧
      arguments.Fails zones now input terminal ∧
      ∃ report, arguments.run zones now input terminal = { code := 1, stderr := report }) ∨
    ((∀ printed, ¬ arguments.BreaksOff zones now input terminal printed) ∧
      ¬ arguments.Fails zones now input terminal ∧
      ∃ text, arguments.Answers zones now input terminal text ∧
        arguments.run zones now input terminal = { code := 0, stdout := String.ofList text }) := by
  by_cases hfails : arguments.Fails zones now input terminal
  · obtain ⟨report, hrun⟩ := run_of_fails zones now input terminal hlist hfails
    refine .inr (.inl ⟨fun printed hbreak => ?_, hfails, report, hrun⟩)
    -- The two ends of a run leave different codes.
    have hcode := congrArg Outcome.code hrun
    rw [run_of_breaksOff zones now input terminal hlist hbreak] at hcode
    exact absurd (show (101 : UInt32) = 1 from hcode) (by decide)
  by_cases hwhole : ∀ printed, ¬ arguments.BreaksOff zones now input terminal printed
  · exact .inr (.inr ⟨hwhole, hfails, exists_answers zones now input terminal hlist hwhole hfails⟩)
  · obtain ⟨printed, hbreak⟩ := not_forall_not.1 hwhole
    exact .inl ⟨printed, hbreak, hfails, run_of_breaksOff zones now input terminal hlist hbreak⟩

/-- In a zone without an offset no run breaks off. -/
theorem not_breaksOff_of_offset_zero {z : Zone} (hzone : arguments.zone zones = .ok z)
    (hz : ∀ unix, z.offsetAt unix = 0) :
    ¬ arguments.BreaksOff zones now input terminal printed := by
  rintro ⟨source, ctx, i, hquestion, hbreak⟩
  have hctx : ctx.zone = z := by
    simp only [Arguments.question, bind_eq_ok_iff, hzone] at hquestion
    obtain ⟨_, -, _, ⟨rfl⟩, ⟨rfl⟩⟩ := hquestion
    rfl
  exact hbreak.not_inRange (Zone.inRange_civil_of_offset_zero (hctx ▸ hz) i)

/-- The outcomes that a run of the command can have.  The code is 101 for the runs that break off,
which they do only at an instant of the first or of the last day of the calendar, and what comes
before has been printed; it is 1 for those that fail, and nothing has been printed; and it is 0 for
all others.  Then all steps have been printed that were asked for, those on a weekend left out if
they are to be skipped and the others as they were. -/
theorem run_whole (hlist : arguments.listTz = false) :
    let outcome := arguments.run zones now input terminal
    (outcome.code = 101 ↔ ∃ printed, arguments.BreaksOff zones now input terminal printed) ∧
    (∀ source ctx i printed,
      arguments.question zones now input terminal = .ok (source, ctx) →
      arguments.BreaksAt ctx source i printed → outcome.stdout = String.ofList printed ∧
        ¬ (ctx.zone.civil i).InRange ∧
        (i.utc.date.dayNumber = Date.minDay ∨ i.utc.date.dayNumber = Date.maxDay)) ∧
    ((∀ printed, ¬ arguments.BreaksOff zones now input terminal printed) →
      outcome.code = 0 ∨ outcome.code = 1) ∧
    (outcome.code = 1 ↔ arguments.Fails zones now input terminal) ∧
    (outcome.code = 1 → outcome.stdout = "") ∧
    (outcome.code = 0 → ∀ source ctx e,
      arguments.question zones now input terminal = .ok (source, ctx) →
      parse source = .ok e → arguments.asksForSteps e = true →
      ∃ steps text,
        iterateText ctx source (arguments.each.getD "") arguments.transform = .ok steps ∧
        (∀ (k : Nat) (s : Step), steps[k]? = some s → s.index = k) ∧
        Renders arguments.format ctx.zone
          (steps.filter fun s => !(arguments.skipWeekends && startsOnWeekend ctx.zone s)) text ∧
        outcome.stdout = String.ofList text) := by
  intro outcome
  have hbreaks (source : String) (ctx : Context) (i : Instant) (printed : List Char)
      (hquestion : arguments.question zones now input terminal = .ok (source, ctx))
      (hbreak : arguments.BreaksAt ctx source i printed) :
      outcome.stdout = String.ofList printed ∧ ¬ (ctx.zone.civil i).InRange ∧
        (i.utc.date.dayNumber = Date.minDay ∨ i.utc.date.dayNumber = Date.maxDay) := by
    have hoff : arguments.BreaksOff zones now input terminal printed :=
      ⟨source, ctx, i, hquestion, hbreak⟩
    have hrun : outcome.stdout = String.ofList printed :=
      congrArg Outcome.stdout (run_of_breaksOff zones now input terminal hlist hoff)
    exact ⟨hrun, hbreak.not_inRange, Zone.at_end_of_not_inRange hbreak.not_inRange⟩
  rcases run_cases zones now input terminal hlist with
    ⟨printed, hbreak, hfails, hrun⟩ | ⟨hwhole, hfails, report, hrun⟩ |
      ⟨hwhole, hfails, text, hanswers, hrun⟩
  · have hsome : ∃ printed, arguments.BreaksOff zones now input terminal printed :=
      ⟨printed, hbreak⟩
    exact ⟨by simp [outcome, hrun, hsome], hbreaks, fun hwhole => absurd hbreak (hwhole printed),
      by simp [outcome, hrun, hfails], by simp [outcome, hrun], by simp [outcome, hrun]⟩
  · exact ⟨by simp [outcome, hrun, hwhole], hbreaks, by simp [outcome, hrun],
      by simp [outcome, hrun, hfails], by simp [outcome, hrun], by simp [outcome, hrun]⟩
  · refine ⟨by simp [outcome, hrun, hwhole], hbreaks, by simp [outcome, hrun],
      by simp [outcome, hrun, hfails], by simp [outcome, hrun], ?_⟩
    intro _ source ctx e hquestion hparse hasks
    obtain ⟨source', ctx', e', hquestion', hparse', hsteps, -⟩ := hanswers
    obtain ⟨rfl, rfl⟩ := Prod.mk.inj (Except.ok.inj (hquestion.symm.trans hquestion'))
    obtain rfl := Except.ok.inj (hparse.symm.trans hparse')
    obtain ⟨steps, hiterate, hrenders⟩ := hsteps hasks
    refine ⟨steps, text, hiterate, fun k s => index_of_iterateText hiterate, ?_, ?_⟩
    · rw [← keep_eq]
      exact hrenders
    · simp only [outcome, hrun]

end Outcomes

/-- The days from a Friday to a Tuesday, without the weekend. -/
def workingDays : Arguments where
  expression := some "2024-01-05...2024-01-09"
  tz := some "UTC"
  each := some "1d"
  transform := none
  format := .compact
  skipWeekends := true
  weekStart := .monday
  listTz := false
  logLevel := .warn

/-- A step of one day from Friday on: Saturday and Sunday are left out, and the rest is printed.
-/
theorem run_whole_workingDays :
    (workingDays.run Zones.known .epoch [] false).stdout =
      "20240105 - 20240106\n20240108 - 20240109\n" ∧
    ∃ steps text,
      iterateText { now := .epoch, zone := .utc } "2024-01-05...2024-01-09" "1d" none =
        .ok steps ∧
      (∀ (k : Nat) (s : Step), steps[k]? = some s → s.index = k) ∧
      Renders .compact .utc (steps.filter fun s => !(true && startsOnWeekend .utc s)) text ∧
      (workingDays.run Zones.known .epoch [] false).stdout = String.ofList text := by
  have hcode : (workingDays.run Zones.known .epoch [] false).code = 0 := by decide +kernel
  have hparse : parse "2024-01-05...2024-01-09" =
      .ok (.range (.date "2024-01-05") (.date "2024-01-09")) := by decide +kernel
  have hquestion : workingDays.question Zones.known .epoch [] false =
      .ok ("2024-01-05...2024-01-09", { now := .epoch, zone := .utc }) := by rfl
  have hlist : workingDays.listTz = false := rfl
  obtain ⟨-, -, -, -, -, hsteps⟩ := run_whole Zones.known .epoch [] false hlist
  exact ⟨by decide +kernel, hsteps hcode _ _ _ hquestion hparse rfl⟩

/-- In Japan, the last hour of the calendar in UTC is past its end on the clocks.  A day after an
instant within that hour is not out of range: the run breaks off.  And of a listing in the notation
of RFC 3339 with a step that ends there, the step before it has been printed. -/
theorem run_lastHour :
    (∃ arguments, Arguments.ofList {} ["--tz", "Asia/Tokyo",
        "2024-01-01 | +260118Y | endofyear | +1h | +1d"] = .ok arguments ∧
      arguments.listTz = false ∧
      arguments.run Zones.known .epoch [] false = { code := 101 }) ∧
    ∃ arguments, Arguments.ofList {} ["--tz", "Asia/Tokyo", "-f", "iso", "-e", "1h",
        "-t", "$begin, $end +2280156334h", "2024-01-01...2024-01-01 | +2h"] = .ok arguments ∧
      arguments.listTz = false ∧
      arguments.run Zones.known .epoch [] false =
        { code := 101
          stdout := "2024-01-01T00:00:00+09:00 - +262142-12-31T23:00:00+09:00\n" } :=
  ⟨⟨_, rfl, rfl, by decide +kernel⟩, _, rfl, rfl, by decide +kernel⟩

end Almanac.CommandLine
