import Almanac.Output.Listing
import Mathlib.Data.List.Forall2

/-!
# Listings are whole, empty or broken off

Whether an instant can be written depends on the format alone.  So of several steps the first
tells whether the others can be written too, and a listing that fails has printed nothing.  But in
the notation of RFC 3339 the writing breaks off at the first step with an end whose civil time the
calendar does not cover, and what comes before that stays printed.

Main definitions:

- `OutputFormat.Writable`: the formats in which instants can be written.
- `OutputFormat.Consults`: the formats that are computed from a civil time of the calendar.
- `Step.Covered`, `Step.BreaksAt`: whether both ends of a step can be read, and which of them first
  cannot.
- `Renders`: the texts that are steps in a format, one after the other.
- `RendersBefore`: the texts of the steps before the first that is not covered.

Main results:

- Theorems `OutputFormat.write_of_not_writable`, `OutputFormat.write_of_not_inRange`,
  `OutputFormat.exists_write`: what can be written.
- Theorems `writeSteps_renders`, `writeSteps_of_not_writable`, `writeSteps_of_rendersBefore`: steps
  are printed all, or not at all, or up to where the listing breaks off.
-/

namespace Almanac

open Text

variable {format : OutputFormat} {r : Reading} {z : Zone} {i : Instant} {s : Step}
  {j : Instant} {steps front rest : List Step}

/-! ## Listings one after the other -/

namespace Listing

/-- What is printed after a listing that did not fail. -/
@[simp]
theorem text_append (text : List Char) (l : Listing) :
    ({ text := text } : Listing) ++ l = { text := text ++ l.text, failure := l.failure } :=
  rfl

/-- After a failure nothing more is printed. -/
@[simp]
theorem failed_append (text : List Char) (e : RenderError) (l : Listing) :
    ({ text := text, failure := some e } : Listing) ++ l =
      { text := text, failure := some e } :=
  rfl

end Listing

/-! ## What can be written -/

/-- A format in which instants can be written. -/
def OutputFormat.Writable (format : OutputFormat) : Prop :=
  ∀ pattern, format = .custom pattern → Item.unwritable ∉ pattern.items

/-- A format that is computed from a civil time, which the calendar has to cover. -/
def OutputFormat.Consults (format : OutputFormat) : Prop :=
  format = .iso ∨ format = .json

/-- One item alone has no written form. -/
theorem Item.write?_eq_none_iff {item : Item} : item.write? r = none ↔ item = .unwritable := by
  cases item <;> simp [Item.write?]

/-- Items can be written unless there is one among them that never can. -/
theorem writeItems?_eq_none_iff {items : List Item} :
    writeItems? r items = none ↔ Item.unwritable ∈ items := by
  induction items with
  | nil => simp [writeItems?]
  | cons item items ih =>
      rw [writeItems?, List.mem_cons, ← ih]
      cases hitem : item.write? r with
      | none => simp [Item.write?_eq_none_iff.1 hitem]
      | some front =>
          have hne : Item.unwritable ≠ item := by
            rintro rfl
            cases hitem
          cases writeItems? r items <;> simp [hne]

/-- Items without one that never can be written have a text. -/
theorem exists_writeItems? {items : List Item} (h : Item.unwritable ∉ items) (r : Reading) :
    ∃ text, orUnwritable (writeItems? r items) = .ok text := by
  cases hwrite : writeItems? r items with
  | none => exact absurd (writeItems?_eq_none_iff.1 hwrite) h
  | some text => exact ⟨text, rfl⟩

namespace OutputFormat

/-- A format that is computed from a civil time has a written form. -/
theorem Consults.writable (h : format.Consults) : format.Writable := by
  rintro pattern rfl
  rcases h with h | h <;> cases h

/-- In a format that can be written every instant is written, if the calendar covers the civil time
that the format may be computed from. -/
theorem exists_write (h : format.Writable) (hcovered : format.Consults → r.civil.InRange) :
    ∃ text, format.write r = .ok text := by
  cases format with
  | iso => exact ⟨_, if_pos (hcovered (.inl rfl))⟩
  | json => exact ⟨_, if_pos (hcovered (.inr rfl))⟩
  | timestamp => exact ⟨_, rfl⟩
  | sql => exact @exists_writeItems? sqlItems (by decide) r
  | human => exact @exists_writeItems? humanItems (by decide) r
  | compact => exact @exists_writeItems? compactItems (by decide) r
  | custom pattern => exact exists_writeItems? (h pattern rfl) r

/-- In any other format no instant is written. -/
theorem write_of_not_writable (h : ¬ format.Writable) : format.write r = .error .unwritable := by
  cases format with
  | custom pattern =>
      have hmem : Item.unwritable ∈ pattern.items := by
        by_contra hnot
        refine h ?_
        rintro _ ⟨⟩
        exact hnot
      rw [write, Pattern.write?, writeItems?_eq_none_iff.2 hmem]
      rfl
  | _ => exact absurd nofun h

/-- Where the calendar does not cover the civil time that a format is computed from, the writing
breaks off. -/
theorem write_of_not_inRange (h : format.Consults) (hcovered : ¬ r.civil.InRange) :
    format.write r = .error .brokenOff := by
  rcases h with rfl | rfl <;> exact if_neg hcovered

end OutputFormat

/-! ## The text of steps -/

/-- The calendar covers what the clocks show at both ends of a step. -/
def Step.Covered (s : Step) (z : Zone) : Prop :=
  (z.civil s.start).InRange ∧ (z.civil s.stop).InRange

instance (s : Step) (z : Zone) : Decidable (s.Covered z) :=
  inferInstanceAs (Decidable (_ ∧ _))

/-- The line of a step: its two ends, with a dash between them. -/
def IsLine (format : OutputFormat) (z : Zone) (s : Step) (line : List Char) : Prop :=
  ∃ start stop, format.render z s.start = .ok start ∧ format.render z s.stop = .ok stop ∧
    line = start ++ " - ".toList ++ stop ++ ['\n']

/-- An instant as a JSON string. -/
def Instant.json (i : Instant) (z : Zone) : List Char :=
  "\"".toList ++ rfc3339 true (z.reading i) ++ "\"".toList

namespace Step

/-- The first end of a step that the calendar does not cover. -/
inductive BreaksAt (s : Step) (z : Zone) : Instant → Prop
  | start (hstart : ¬ (z.civil s.start).InRange) : s.BreaksAt z s.start
  | stop (hstart : (z.civil s.start).InRange) (hstop : ¬ (z.civil s.stop).InRange) :
      s.BreaksAt z s.stop

/-- A step that is not covered has a first end that is not. -/
theorem exists_breaksAt (h : ¬ s.Covered z) : ∃ j, s.BreaksAt z j := by
  by_cases hstart : (z.civil s.start).InRange
  · exact ⟨_, .stop hstart fun hstop => h ⟨hstart, hstop⟩⟩
  · exact ⟨_, .start hstart⟩

/-- The calendar does not cover what the clocks show there. -/
theorem BreaksAt.not_inRange (h : s.BreaksAt z j) : ¬ (z.civil j).InRange := by
  cases h with
  | start hstart => exact hstart
  | stop _ hstop => exact hstop

/-- A step as a JSON object. -/
def json (z : Zone) (s : Step) : List Char :=
  "  \x7b\n    \"begin\": ".toList ++ s.start.json z ++ ",\n    \"end\": ".toList ++ s.stop.json z ++
    ",\n    \"index\": ".toList ++ plain s.index ++ "\n  \x7d".toList

/-- The beginning of the JSON object of a step, up to the quotation mark that opens the first of its
ends that the calendar does not cover. -/
def jsonOpening (z : Zone) (s : Step) : List Char :=
  if (z.civil s.start).InRange then
    "  \x7b\n    \"begin\": ".toList ++ s.start.json z ++ ",\n    \"end\": ".toList ++ "\"".toList
  else "  \x7b\n    \"begin\": ".toList ++ "\"".toList

end Step

/-- Steps as a JSON array: its elements are separated by commas, each on lines of its own. -/
def jsonArray (z : Zone) (steps : List Step) : List Char :=
  if steps = [] then "[]".toList
  else "[\n".toList ++ List.intercalate ",\n".toList (steps.map (Step.json z)) ++ "\n]".toList

/-- The beginning of a JSON array of steps that breaks off at the step `s`. -/
def jsonArrayOpening (z : Zone) (front : List Step) (s : Step) : List Char :=
  "[\n".toList ++ List.intercalate ",\n".toList (front.map (Step.json z) ++ [s.jsonOpening z])

/-- The texts that are steps in a format, one after the other. -/
inductive Renders (format : OutputFormat) (z : Zone) (steps : List Step) : List Char → Prop
  | json (h : format = .json) : Renders format z steps (jsonArray z steps ++ ['\n'])
  | lines {lines : List (List Char)} (h : format ≠ .json)
      (hlines : List.Forall₂ (IsLine format z) steps lines) : Renders format z steps lines.flatten

/-- The texts of the steps before the first that is not covered, which breaks off at `i`: the whole
lines of these, or the beginning of a JSON array. -/
inductive RendersBefore (format : OutputFormat) (z : Zone) (i : Instant) :
    List Step → List Char → Prop
  | json {front rest : List Step} {s : Step} (h : format = .json)
      (hfront : ∀ t ∈ front, t.Covered z) (hs : s.BreaksAt z i) :
      RendersBefore format z i (front ++ s :: rest) (jsonArrayOpening z front s)
  | lines {front rest : List Step} {s : Step} {lines : List (List Char)} (h : format ≠ .json)
      (hfront : ∀ t ∈ front, t.Covered z) (hs : s.BreaksAt z i)
      (hlines : List.Forall₂ (IsLine format z) front lines) :
      RendersBefore format z i (front ++ s :: rest) lines.flatten

/-- Steps that break off do so where the calendar does not cover what the clocks show. -/
theorem RendersBefore.not_inRange {text : List Char} (h : RendersBefore format z i steps text) :
    ¬ (z.civil i).InRange := by
  cases h with
  | json _ _ hs => exact hs.not_inRange
  | lines _ _ hs => exact hs.not_inRange

/-! ## JSON -/

/-- A covered instant is printed as a JSON string. -/
theorem jsonInstant_of_inRange (h : (z.civil i).InRange) :
    jsonInstant z i = { text := i.json z } := by
  have hwrite : (z.reading i).writeRfc3339 true = .ok (rfc3339 true (z.reading i)) := if_pos h
  simp only [jsonInstant, hwrite, Listing.ofExcept, jsonText, Instant.json, Listing.text_append]

/-- Of any other instant the opening quotation mark is printed. -/
theorem jsonInstant_of_not_inRange (h : ¬ (z.civil i).InRange) :
    jsonInstant z i = { text := "\"".toList, failure := some .brokenOff } := by
  have hwrite : (z.reading i).writeRfc3339 true = .error .brokenOff := if_neg h
  simp only [jsonInstant, hwrite, Listing.ofExcept, jsonText, Listing.text_append,
    Listing.failed_append, List.append_nil]

/-- A covered step is printed as a JSON object. -/
theorem jsonStep_of_covered (h : s.Covered z) : jsonStep z s = { text := s.json z } := by
  rw [jsonStep, jsonInstant_of_inRange h.1, jsonInstant_of_inRange h.2]
  simp only [jsonText, Listing.text_append]
  rfl

/-- Of any other step the beginning is printed. -/
theorem jsonStep_of_breaksAt (h : s.BreaksAt z j) :
    jsonStep z s = { text := s.jsonOpening z, failure := some .brokenOff } := by
  cases h with
  | stop hstart hstop =>
      simp only [jsonStep, jsonInstant_of_inRange hstart, jsonInstant_of_not_inRange hstop,
        jsonText, Step.jsonOpening, if_pos hstart, Listing.text_append, Listing.failed_append]
  | start hstart =>
      simp only [jsonStep, jsonInstant_of_not_inRange hstart, jsonText, Step.jsonOpening,
        if_neg hstart, Listing.text_append, Listing.failed_append]

/-- Covered steps after the first are printed before all that comes after them. -/
theorem jsonRest_append (h : ∀ t ∈ front, t.Covered z) (rest : List Step) :
    jsonRest z (front ++ rest) =
      ({ text := front.flatMap fun t => ",\n".toList ++ t.json z } : Listing) ++
        jsonRest z rest := by
  induction front with
  | nil => rfl
  | cons t front ih =>
      rw [List.forall_mem_cons] at h
      rw [List.cons_append, jsonRest, jsonStep_of_covered h.1, ih h.2]
      simp only [jsonText, Listing.text_append, List.flatMap_cons, List.append_assoc]

/-- Texts with a separator between them: it comes before all but the first. -/
theorem intercalate_cons_eq_flatMap (separator text : List Char) (texts : List (List Char)) :
    List.intercalate separator (text :: texts) = text ++ texts.flatMap (separator ++ ·) := by
  induction texts generalizing text with
  | nil => rw [List.intercalate_singleton, List.flatMap_nil, List.append_nil]
  | cons next texts ih =>
      rw [List.intercalate_cons_cons, ih, List.flatMap_cons]
      simp only [List.append_assoc]

/-- Covered steps are printed as a JSON array. -/
theorem jsonSteps_of_covered (h : ∀ t ∈ steps, t.Covered z) :
    jsonSteps z steps = { text := jsonArray z steps } := by
  cases steps with
  | nil => rfl
  | cons s steps =>
      rw [List.forall_mem_cons] at h
      have hrest := jsonRest_append h.2 []
      rw [List.append_nil] at hrest
      simp only [jsonSteps, jsonStep_of_covered h.1, hrest, jsonRest, jsonText, jsonArray,
        Listing.text_append, List.cons_ne_nil, if_false, List.map_cons,
        intercalate_cons_eq_flatMap, List.flatMap_map, List.append_assoc]

/-- Of steps that are not all covered the beginning of a JSON array is printed. -/
theorem jsonSteps_of_breaksAt (hfront : ∀ t ∈ front, t.Covered z) (hs : s.BreaksAt z j) :
    jsonSteps z (front ++ s :: rest) =
      { text := jsonArrayOpening z front s, failure := some .brokenOff } := by
  cases front with
  | nil =>
      simp only [jsonSteps, jsonStep_of_breaksAt hs, jsonText, jsonArrayOpening,
        List.nil_append, List.map_nil, List.intercalate_singleton, Listing.text_append,
        Listing.failed_append]
  | cons t front =>
      rw [List.forall_mem_cons] at hfront
      simp only [List.cons_append, jsonSteps, jsonStep_of_covered hfront.1,
        jsonRest_append hfront.2, jsonRest, jsonStep_of_breaksAt hs, jsonText, jsonArrayOpening,
        Listing.text_append, Listing.failed_append, List.map_cons,
        intercalate_cons_eq_flatMap, List.flatMap_append, List.flatMap_map, List.flatMap_cons,
        List.flatMap_nil, List.append_assoc, List.append_nil]

/-! ## Lines -/

/-- The line of a step is what is printed of it. -/
theorem IsLine.stepLine_eq {line : List Char} (h : IsLine format z s line) :
    stepLine format z s = .ok line := by
  obtain ⟨start, stop, hstart, hstop, rfl⟩ := h
  rw [stepLine, hstart, hstop]
  rfl

/-- In a format that can be written there is a line for a step, if it is covered where that
matters. -/
theorem exists_isLine (h : format.Writable) (hcovered : format.Consults → s.Covered z) :
    ∃ line, IsLine format z s line := by
  obtain ⟨start, hstart⟩ :=
    @OutputFormat.exists_write format (z.reading s.start) h fun hc => (hcovered hc).1
  obtain ⟨stop, hstop⟩ :=
    @OutputFormat.exists_write format (z.reading s.stop) h fun hc => (hcovered hc).2
  exact ⟨_, start, stop, hstart, hstop, rfl⟩

/-- So there is for each of some steps. -/
theorem exists_lines (h : format.Writable)
    (hcovered : format.Consults → ∀ s ∈ steps, s.Covered z) :
    ∃ lines, List.Forall₂ (IsLine format z) steps lines := by
  induction steps with
  | nil => exact ⟨[], .nil⟩
  | cons s steps ih =>
      obtain ⟨lines, hlines⟩ := ih fun hc t ht => hcovered hc t (List.mem_cons_of_mem s ht)
      obtain ⟨line, hline⟩ := exists_isLine h fun hc => hcovered hc s List.mem_cons_self
      exact ⟨line :: lines, .cons hline hlines⟩

/-- In any other format there is none. -/
theorem stepLine_of_not_writable (h : ¬ format.Writable) (z : Zone) (s : Step) :
    stepLine format z s = .error .unwritable := by
  rw [stepLine, OutputFormat.render, OutputFormat.write_of_not_writable h]
  rfl

/-- The line of a step breaks off where the calendar does not cover one of its ends. -/
theorem stepLine_of_breaksAt (h : format.Consults) (hs : s.BreaksAt z j) :
    stepLine format z s = .error .brokenOff := by
  cases hs with
  | stop hstart hstop =>
      obtain ⟨text, htext⟩ :=
        @OutputFormat.exists_write format (z.reading s.start) h.writable fun _ => hstart
      have hbreak : format.write (z.reading s.stop) = .error .brokenOff :=
        OutputFormat.write_of_not_inRange h hstop
      simp only [stepLine, OutputFormat.render, htext, hbreak]
      rfl
  | start hstart =>
      have hbreak : format.write (z.reading s.start) = .error .brokenOff :=
        OutputFormat.write_of_not_inRange h hstart
      simp only [stepLine, OutputFormat.render, hbreak]
      rfl

/-- Steps that have lines are printed line after line, before all that comes after them. -/
theorem stepLines_append {lines : List (List Char)}
    (h : List.Forall₂ (IsLine format z) front lines) (rest : List Step) :
    stepLines format z (front ++ rest) =
      ({ text := lines.flatten } : Listing) ++ stepLines format z rest := by
  induction h with
  | nil => rfl
  | cons hline _ ih =>
      rw [List.cons_append, stepLines, hline.stepLine_eq, ih]
      simp [Listing.ofExcept]

/-! ## Steps -/

/-- Steps are printed all, where there are none, or the format can be written and they are covered
as far as it matters. -/
theorem writeSteps_renders (h : steps = [] ∨ format.Writable)
    (hcovered : format.Consults → ∀ s ∈ steps, s.Covered z) :
    ∃ text, Renders format z steps text ∧ writeSteps format z steps = { text := text } := by
  by_cases hjson : format = .json
  · refine ⟨_, .json hjson, ?_⟩
    rw [writeSteps, if_pos hjson, jsonSteps_of_covered (hcovered (.inr hjson))]
    rfl
  · rw [writeSteps, if_neg hjson]
    rcases h with rfl | h
    · exact ⟨[], .lines hjson .nil, rfl⟩
    · obtain ⟨lines, hlines⟩ := exists_lines h hcovered
      have htext := stepLines_append hlines []
      rw [List.append_nil] at htext
      refine ⟨_, .lines hjson hlines, ?_⟩
      rw [htext]
      simp [stepLines]

/-- Steps are not printed at all, where there are some and the format cannot be written. -/
theorem writeSteps_of_not_writable (z : Zone) (h : ¬ format.Writable) (hsteps : steps ≠ []) :
    writeSteps format z steps = { failure := some .unwritable } := by
  obtain ⟨s, rest, rfl⟩ := List.exists_cons_of_ne_nil hsteps
  have hjson : format ≠ .json := fun hjson => h (OutputFormat.Consults.writable (.inr hjson))
  rw [writeSteps, if_neg hjson, stepLines, stepLine_of_not_writable h]
  rfl

/-- Where a format is computed from civil times, there is a first step that is not covered, if not
all are. -/
theorem exists_rendersBefore (h : format.Consults) (hcovered : ¬ ∀ s ∈ steps, s.Covered z) :
    ∃ i text, RendersBefore format z i steps text := by
  obtain ⟨s, hs, hnot⟩ : ∃ s ∈ steps, ¬ s.Covered z := by simpa using hcovered
  obtain ⟨first, hfirst⟩ := Option.isSome_iff_exists.1
    (List.find?_isSome.2 ⟨s, hs, decide_eq_true hnot⟩ :
      (steps.find? fun s => decide (¬ s.Covered z)).isSome)
  obtain ⟨hbad, front, rest, rfl, hgood⟩ := List.find?_eq_some_iff_append.1 hfirst
  obtain ⟨i, hbreak⟩ := Step.exists_breaksAt (of_decide_eq_true hbad)
  have hfront : ∀ t ∈ front, t.Covered z := by simpa using hgood
  by_cases hjson : format = .json
  · exact ⟨i, _, .json hjson hfront hbreak⟩
  · obtain ⟨lines, hlines⟩ := exists_lines h.writable fun _ => hfront
    exact ⟨i, _, .lines hjson hfront hbreak hlines⟩

/-- Steps are printed up to the first that is not covered. -/
theorem writeSteps_of_rendersBefore {text : List Char} (h : format.Consults)
    (hbefore : RendersBefore format z i steps text) :
    writeSteps format z steps = { text := text, failure := some .brokenOff } := by
  cases hbefore with
  | json hjson hfront hbreak =>
      rw [writeSteps, if_pos hjson, jsonSteps_of_breaksAt hfront hbreak]
      rfl
  | lines hjson hfront hbreak hlines =>
      rw [writeSteps, if_neg hjson, stepLines_append hlines, stepLines,
        stepLine_of_breaksAt h hbreak]
      simp [Listing.ofExcept]

/-! ## One instant -/

/-- A value is printed, where the format can be written and the calendar covers the value as far as
it matters. -/
theorem exists_writeValue (h : format.Writable) (hcovered : format.Consults → (z.civil i).InRange) :
    ∃ text, writeValue format z i = { text := text } := by
  by_cases hjson : format = .json
  · exact ⟨_, by rw [writeValue, if_pos hjson, jsonInstant_of_inRange (hcovered (.inr hjson))]; rfl⟩
  · obtain ⟨text, htext⟩ := @OutputFormat.exists_write format (z.reading i) h hcovered
    exact ⟨_, by rw [writeValue, if_neg hjson, OutputFormat.render, htext]; rfl⟩

/-- No value is printed, where the format cannot be written. -/
theorem writeValue_of_not_writable (z : Zone) (i : Instant) (h : ¬ format.Writable) :
    writeValue format z i = { failure := some .unwritable } := by
  have hjson : format ≠ .json := fun hjson => h (OutputFormat.Consults.writable (.inr hjson))
  rw [writeValue, if_neg hjson, OutputFormat.render, OutputFormat.write_of_not_writable h]
  rfl

/-- Of a value that is not covered nothing is printed, but in JSON the opening quotation mark. -/
theorem writeValue_of_not_inRange (h : format.Consults) (hcovered : ¬ (z.civil i).InRange) :
    writeValue format z i =
      { text := if format = .json then "\"".toList else [], failure := some .brokenOff } := by
  by_cases hjson : format = .json
  · rw [writeValue, if_pos hjson, if_pos hjson, jsonInstant_of_not_inRange hcovered]
    rfl
  · rw [writeValue, if_neg hjson, if_neg hjson, OutputFormat.render,
      @OutputFormat.write_of_not_inRange format (z.reading i) h hcovered]
    rfl

end Almanac
