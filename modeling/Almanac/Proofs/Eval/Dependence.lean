import Almanac.Eval.Basic
import Almanac.Proofs.Instant.Elapsed
import Almanac.Proofs.Token.Word
import Almanac.Zone.Table

/-!
# What the value of an expression depends on

A context holds more than an expression needs.  Its value is the same in all contexts of one zone
that give its variables the same values, unless one of its dates is counted from now or one of
its operations goes to the boundary of a week.  Only that it can be said which day is today matters
to every date, for that is consulted before the text is read.

Main definitions:

- `IsRelative`: the texts of dates that are counted from now.
- `Expr.dates`, `Expr.names`, `Expr.operations`: what an expression mentions.
- `Context.Agree`: contexts that do not differ in anything that an expression mentions.

Main results:

- Theorem `dateValue_congr`: only the relative dates depend on now.
- Theorem `evaluate_agree`: contexts that agree on an expression give it the same value.
-/

namespace Almanac

variable {c d : Context} {e : Expr} {text : String}

/-! ## Dates -/

/-- The texts of dates that are counted from now. -/
inductive IsRelative (text : String) : Prop
  | word (h : String.ofList (text.toList.map Char.toLower) ∈ dayKeywords)
  | signed {sign : Char} {rest : List Char} (hsign : IsSign sign) (h : text.toList = sign :: rest)
  | quantity {digits : List Char} {letter : Char} (hdigits : IsNumber digits)
      (hletter : letter.isAlpha = true) (h : text.toList = digits ++ [letter])
  | clock {time : TimeOfDay} (h : Literal.clockTime? text.toList = some time)

/-- What is found in a table stands there. -/
theorem mem_of_lookup_eq_some {α : Type} {table : List (String × α)} {name : String} {a : α}
    (h : table.lookup name = some a) : (name, a) ∈ table := by
  obtain ⟨before, after, rfl, -⟩ := List.lookup_eq_some_iff.1 h
  exact List.mem_append_right before List.mem_cons_self

/-- The names of days around today are keywords of dates. -/
theorem mem_dayKeywords_of_namedDay? {name : String} {days : Int}
    (h : namedDay? name = some days) : name ∈ dayKeywords := by
  have hdays : ∀ entry ∈ [("today", (0 : Int)), ("yesterday", -1), ("tomorrow", 1)],
      entry.1 ∈ dayKeywords := by decide
  exact hdays _ (mem_of_lookup_eq_some h)

/-- So are the names of weekdays. -/
theorem mem_dayKeywords_of_ofName? {name : String} {w : Weekday}
    (h : Weekday.ofName? name = some w) : name ∈ dayKeywords := by
  have hnames : ∀ w : Weekday, String.ofList (w.name.toList.map Char.toLower) ∈ dayKeywords := by
    intro w
    cases w <;> decide +kernel
  rw [Weekday.ofName?] at h
  have hname : String.ofList (w.name.toList.map Char.toLower) = name := by
    simpa using List.find?_some h
  exact hname ▸ hnames w

/-- A text that is counted from now begins with a sign, or is a number and a letter. -/
theorem isRelative_of_isQuantity (h : isQuantity text.toList = true) : IsRelative text := by
  cases htext : text.toList with
  | nil =>
      rw [htext] at h
      cases h
  | cons c cs =>
      by_cases hsign : IsSign c
      · exact .signed hsign htext
      · have hunsigned : isUnsignedQuantity (c :: cs) = true := by
          rw [htext] at h
          rw [IsSign, not_or] at hsign
          simpa [isQuantity, hsign] using h
        simp only [isUnsignedQuantity, Bool.and_eq_true, beq_iff_eq, List.head?_cons,
          Option.any_some] at hunsigned
        obtain ⟨⟨hdigit, hone⟩, hletter⟩ := hunsigned
        obtain ⟨letter, hrest⟩ := List.length_eq_one_iff.1 hone
        have halpha : letter.isAlpha = true := by simpa [hrest] using hletter
        refine .quantity (isNumber_takeWhile hdigit cs) halpha ?_
        rw [← hrest, List.takeWhile_append_dropWhile, htext]

/-- A text that is not counted from now is a date in digits. -/
theorem valueOn_of_not_isRelative (ctx : Context) (today : Date) (h : ¬ IsRelative text) :
    valueOn ctx today text = numeralValue ctx today text := by
  have hnow : String.ofList (text.toList.map Char.toLower) ≠ "now" := fun hnow =>
    h (.word (hnow ▸ by decide))
  have hnamed : namedDay? (String.ofList (text.toList.map Char.toLower)) = none :=
    Option.eq_none_iff_forall_ne_some.2 fun days hdays =>
      h (.word (mem_dayKeywords_of_namedDay? hdays))
  have hweekday : Weekday.ofName? (String.ofList (text.toList.map Char.toLower)) = none :=
    Option.eq_none_iff_forall_ne_some.2 fun w hw => h (.word (mem_dayKeywords_of_ofName? hw))
  have hquantity : isQuantity text.toList = false :=
    Bool.eq_false_iff.2 fun hquantity => h (isRelative_of_isQuantity hquantity)
  simp only [valueOn, hnow, hnamed, hweekday, hquantity, if_false, Bool.false_eq_true]

/-- A date and time in digits depends on the zone alone. -/
theorem isoValue_congr (hzone : c.zone = d.zone) (text : String) (civil : Civil)
    (offset : Option Int) : isoValue c text civil offset = isoValue d text civil offset := by
  simp only [isoValue, hzone]

/-- What any date means depends on the zone and on now. -/
theorem dateValue_congr_of_now (hzone : c.zone = d.zone) (hnow : c.now = d.now) (text : String) :
    dateValue c text = dateValue d text := by
  simp only [dateValue, valueOn, numeralValue, midnightOf, isoValue_congr hzone, hzone, hnow]

/-- What a date that is not relative means does not depend on now, nor on the day. -/
theorem valueOn_congr (hzone : c.zone = d.zone) (h : ¬ IsRelative text) (today today' : Date) :
    valueOn c today text = valueOn d today' text := by
  have hclock : Literal.clockTime? text.toList = none :=
    Option.eq_none_iff_forall_ne_some.2 fun time htime => h (.clock htime)
  simp only [valueOn_of_not_isRelative _ _ h, numeralValue, hclock, isoValue_congr hzone]

/-- Only the relative dates depend on now, and the others on no more than that there is a day
called today. -/
theorem dateValue_congr (hzone : c.zone = d.zone) (hnow : IsRelative text → c.now = d.now)
    (htoday : c.now = d.now ∨ c.HasToday ∧ d.HasToday) : dateValue c text = dateValue d text := by
  rcases htoday with hsame | ⟨hc, hd⟩
  · exact dateValue_congr_of_now hzone hsame text
  · by_cases h : IsRelative text
    · exact dateValue_congr_of_now hzone (hnow h) text
    · rw [dateValue_of_hasToday hc, dateValue_of_hasToday hd]
      exact valueOn_congr hzone h _ _

/-! ## Operations -/

/-- The operations that go to the boundary of a week. -/
def Operation.NamesWeek (o : Operation) : Prop :=
  o.op = "startofweek" ∨ o.op = "endofweek"

instance (o : Operation) : Decidable o.NamesWeek :=
  inferInstanceAs (Decidable (_ ∨ _))

/-- The boundaries of weeks name the week. -/
theorem namesWeek_of_lookup {o : Operation} {edge : Edge}
    (h : boundaries.lookup o.op = some (edge, .week)) : o.NamesWeek := by
  have hweek : ∀ entry ∈ boundaries, entry.2.2 = .week →
      entry.1 = "startofweek" ∨ entry.1 = "endofweek" := by decide
  exact hweek _ (mem_of_lookup_eq_some h) rfl

section Weeks

variable {start start' : WeekStart} (z : Zone) (i : Instant)

/-- The other periods do not depend on the day that weeks begin on. -/
theorem Period.boundary?_of_ne_week {p : Period} (hp : p ≠ .week) (edge : Edge) (civil : Civil) :
    p.boundary? start edge civil = p.boundary? start' edge civil := by
  cases p
  case week => exact absurd rfl hp
  all_goals cases edge <;> rfl

/-- Only the boundaries of a week depend on the day that weeks begin on. -/
theorem Operation.apply_congr {o : Operation} (h : o.NamesWeek → start = start') :
    o.apply start z i = o.apply start' z i := by
  have hboundary (civil : Civil) : boundary start o.op civil = boundary start' o.op civil := by
    unfold boundary
    split
    · rename_i edge p hlookup
      by_cases hp : p = .week
      · rw [h (namesWeek_of_lookup (hp ▸ hlookup))]
      · rw [Period.boundary?_of_ne_week hp]
    · rfl
  simp only [apply, target, hboundary]

/-- If no operation names the week, none depends on the day that weeks start on. -/
theorem Operation.applyAll_congr {ops : List Operation}
    (h : (∃ o ∈ ops, o.NamesWeek) → start = start') :
    applyAll start z i ops = applyAll start' z i ops := by
  induction ops generalizing i with
  | nil => rfl
  | cons o ops ih =>
      have hfirst := apply_congr z i fun ho => h ⟨o, List.mem_cons_self, ho⟩
      have hrest (j : Instant) : applyAll start z j ops = applyAll start' z j ops :=
        ih j fun ⟨o', ho', hweek⟩ => h ⟨o', List.mem_cons_of_mem o ho', hweek⟩
      simp only [applyAll, List.foldlM_cons] at hrest ⊢
      simp only [hfirst, hrest]

end Weeks

/-! ## What an expression mentions -/

namespace Expr

/-- The texts of the dates in an expression. -/
def dates : Expr → List String
  | date text => [text]
  | operation _ => []
  | pipe base _ => base.dates
  | range start stop => start.dates ++ stop.dates
  | var _ => []
  | transform start stop => start.dates ++ stop.dates

/-- The names of the variables in an expression. -/
def names : Expr → List String
  | date _ => []
  | operation _ => []
  | pipe base _ => base.names
  | range start stop => start.names ++ stop.names
  | var name => [name]
  | transform start stop => start.names ++ stop.names

/-- The operations in an expression. -/
def operations : Expr → List Operation
  | date _ => []
  | operation o => [o]
  | pipe base ops => base.operations ++ ops
  | range start stop => start.operations ++ stop.operations
  | var _ => []
  | transform start stop => start.operations ++ stop.operations

end Expr

/-! ## Contexts that agree -/

/-- Two contexts do not differ in anything that an expression mentions, the variables in `bound`
apart.  If it mentions a date, and the two differ in now, it can be said in both which day is
today. -/
structure Context.Agree (bound : List String) (e : Expr) (c d : Context) : Prop where
  zone : c.zone = d.zone
  value : ∀ name ∈ e.names, name ∉ bound → c.value? name = d.value? name
  weekStart : (∃ o ∈ e.operations, o.NamesWeek) → c.weekStart = d.weekStart
  now : (∃ text ∈ e.dates, IsRelative text) → c.now = d.now
  today : e.dates ≠ [] → c.now = d.now ∨ c.HasToday ∧ d.HasToday

namespace Context.Agree

variable {bound : List String} {sub : Expr}

/-- Contexts agree on what mentions less. -/
theorem mono (h : Agree bound e c d) (hnames : sub.names ⊆ e.names)
    (hoperations : sub.operations ⊆ e.operations) (hdates : sub.dates ⊆ e.dates) :
    Agree bound sub c d where
  zone := h.zone
  value := fun name hname => h.value name (hnames hname)
  weekStart := fun ⟨o, ho, hweek⟩ => h.weekStart ⟨o, hoperations ho, hweek⟩
  now := fun ⟨text, htext, hrelative⟩ => h.now ⟨text, hdates htext, hrelative⟩
  today := fun hsub => h.today fun hnil => hsub (List.subset_nil.1 (hnil ▸ hdates))

/-- Contexts that agree on operations on a base agree on the base. -/
theorem base {ops : List Operation} (h : Agree bound (.pipe e ops) c d) : Agree bound e c d :=
  h.mono (List.Subset.refl _) (List.subset_append_left ..) (List.Subset.refl _)

section Ends

variable {start stop : Expr}

/-- Contexts that agree on a range agree on its start. -/
theorem rangeStart (h : Agree bound (.range start stop) c d) : Agree bound start c d :=
  h.mono (List.subset_append_left ..) (List.subset_append_left ..) (List.subset_append_left ..)

/-- Contexts that agree on a range agree on its end. -/
theorem rangeStop (h : Agree bound (.range start stop) c d) : Agree bound stop c d :=
  h.mono (List.subset_append_right ..) (List.subset_append_right ..) (List.subset_append_right ..)

/-- Contexts that agree on a transform agree on its start. -/
theorem transformStart (h : Agree bound (.transform start stop) c d) : Agree bound start c d :=
  h.mono (List.subset_append_left ..) (List.subset_append_left ..) (List.subset_append_left ..)

/-- Contexts that agree on a transform agree on its end. -/
theorem transformStop (h : Agree bound (.transform start stop) c d) : Agree bound stop c d :=
  h.mono (List.subset_append_right ..) (List.subset_append_right ..) (List.subset_append_right ..)

end Ends

/-- A pipe has the same effect in contexts that agree on it. -/
theorem applyAll {ops : List Operation} (h : Agree bound (.pipe e ops) c d) (i : Instant) :
    Operation.applyAll c.weekStart c.zone i ops = Operation.applyAll d.weekStart d.zone i ops := by
  rw [h.zone]
  refine Operation.applyAll_congr d.zone i fun ⟨o, ho, hweek⟩ => h.weekStart ⟨o, ?_, hweek⟩
  exact List.mem_append_right _ ho

/-- The two ends of a step are bound anew in the contexts of a transform, and the rest is as it
was. -/
theorem forStep (h : Agree ["$begin", "$end"] e c d) (start stop : Instant) (i j : Nat) :
    Agree [] e (c.forStep start stop i) (d.forStep start stop j) where
  zone := h.zone
  value := by
    intro name hname _
    have hvalue (ctx : Context) (index : Nat) : (ctx.forStep start stop index).value? name =
        ((ctx.bind "$begin" start).bind "$end" stop).value? name := rfl
    rw [hvalue, hvalue]
    by_cases hbegin : name = "$begin"
    · simp [hbegin]
    by_cases hend : name = "$end"
    · simp [hend]
    · simp [hbegin, hend, h.value name hname]
  weekStart := h.weekStart
  now := h.now
  today := h.today

end Context.Agree

/-! ## Values -/

/-- Contexts that agree on an expression give it the same value. -/
theorem evaluate_congr (h : c.Agree [] e d) : evaluate c e = evaluate d e := by
  induction e with
  | date text =>
      have hnow (htext : IsRelative text) : c.now = d.now :=
        h.now ⟨text, List.mem_singleton.2 rfl, htext⟩
      exact dateValue_congr h.zone hnow (h.today (List.cons_ne_nil text []))
  | operation o => rfl
  | pipe base ops ih => simp only [evaluate, ih h.base, h.applyAll]
  | range start stop => rfl
  | var name =>
      have hvalue := h.value name (List.mem_singleton.2 rfl) List.not_mem_nil
      simp only [evaluate, hvalue]
  | transform start stop => rfl

/-- Contexts that agree on an expression give it the same two ends. -/
theorem evaluateRange_congr (h : c.Agree [] e d) : evaluateRange c e = evaluateRange d e := by
  induction e with
  | pipe base ops ih => simp only [evaluateRange, ih h.base, h.applyAll]
  | range start stop =>
      simp only [evaluateRange, evaluate_congr h.rangeStart, evaluate_congr h.rangeStop]
  | date | operation | var | transform => rfl

/-- A transform gives the same in contexts that agree on it, except on the two ends of a step. -/
theorem evaluateTransform_congr {t : Transform}
    (h : c.Agree ["$begin", "$end"] (.transform t.start t.stop) d) (start stop : Instant)
    (i j : Nat) : evaluateTransform c t start stop i = evaluateTransform d t start stop j := by
  have hinner := h.forStep start stop i j
  simp only [evaluateTransform, evaluate_congr hinner.transformStart,
    evaluate_congr hinner.transformStop]

/-- Contexts that agree on an expression give it the same value, and the same error or break; so
they do for the two instants of a range.  A transform is evaluated with the two ends of a step bound
anew, so that its values depend neither on what these names are bound to before nor on the
number of the step. -/
theorem evaluate_agree :
    (∀ (e : Expr) (c d : Context), c.Agree [] e d →
      evaluate c e = evaluate d e ∧ evaluateRange c e = evaluateRange d e) ∧
    (∀ (t : Transform) (c d : Context), c.Agree ["$begin", "$end"] (.transform t.start t.stop) d →
      ∀ start stop i j, evaluateTransform c t start stop i = evaluateTransform d t start stop j) ∧
    (∀ (t : Transform) (c d : Context), c.now = d.now → c.zone = d.zone →
      c.weekStart = d.weekStart →
      (∀ name, name ≠ "$begin" → name ≠ "$end" → c.value? name = d.value? name) →
      ∀ start stop i j,
        evaluateTransform c t start stop i = evaluateTransform d t start stop j) := by
  refine ⟨fun e c d h => ⟨evaluate_congr h, evaluateRange_congr h⟩,
    fun t c d h => evaluateTransform_congr h, ?_⟩
  intro t c d hnow hzone hweek hvalue
  refine evaluateTransform_congr ⟨hzone, ?_, fun _ => hweek, fun _ => hnow, fun _ => .inl hnow⟩
  intro name _ hname
  have hbegin : name ≠ "$begin" := fun h => hname (h ▸ List.mem_cons_self)
  have hend : name ≠ "$end" := fun h => hname (h ▸ List.mem_cons_of_mem _ List.mem_cons_self)
  exact hvalue name hbegin hend

/-- The end of a month: what counts as now, the first day of weeks, the number of the step and
other variables do not matter. -/
theorem evaluate_agree_endOfMonth :
    evaluateRange
        { now := .epoch, zone := .utc, bindings := [("$due", .ofSeconds 1706702400)] }
        (.range (.date "2024-01-01") (.pipe (.var "$due") [⟨"endofmonth", ""⟩])) =
      evaluateRange
        { now := .ofSeconds 1706702400, zone := .utc,
          bindings := [("$paid", .epoch), ("$due", .ofSeconds 1706702400)],
          index := 7, weekStart := .sunday }
        (.range (.date "2024-01-01") (.pipe (.var "$due") [⟨"endofmonth", ""⟩])) := by
  have hdate : ¬ IsRelative "2024-01-01" := by
    rintro (h | ⟨hsign, h⟩ | ⟨hdigits, hletter, h⟩ | h)
    · exact absurd h (by decide)
    · rcases hsign with rfl | rfl <;> cases h
    · have hlast := congrArg List.getLast? h
      rw [List.getLast?_concat] at hlast
      obtain rfl := Option.some.inj hlast
      cases hletter
    · exact absurd h (by rw [show Literal.clockTime? "2024-01-01".toList = none by decide]; simp)
  refine (evaluate_agree.1 _ _ _ ⟨rfl, ?_, ?_, ?_, ?_⟩).2
  · intro name hname _
    obtain rfl := List.mem_singleton.1 hname
    decide
  · rintro ⟨o, ho, hweek⟩
    obtain rfl := List.mem_singleton.1 ho
    exact absurd hweek (by decide)
  · rintro ⟨text, htext, hrelative⟩
    obtain rfl := List.mem_singleton.1 htext
    exact absurd hrelative hdate
  · exact fun _ => .inr (by decide +kernel)

end Almanac
