import Almanac.Zone.Basic

/-!
# Contexts

What an expression may refer to while it is evaluated: the moment that counts as now,
the zone whose calendar counts, the values of variables, and the day that weeks begin
on.  Nothing else is read, in particular no clock.

Main definitions:

- `Context`: all that evaluation depends on.
- `Context.bind`, `Context.value?`: giving a variable a value, and its value.
- `Context.today`, `Context.HasToday`: the date of now, and whether there is one.
-/

namespace Almanac

/-- All that the value of an expression depends on. -/
structure Context where
  /-- The moment that counts as now. -/
  now : Instant
  /-- The zone whose calendar counts. -/
  zone : Zone
  /-- The variables, by their names with the dollar sign, the latest first. -/
  bindings : List (String × Instant) := []
  /-- The number of the step of an iteration that a transform is evaluated for. -/
  index : Nat := 0
  /-- The day that weeks begin on. -/
  weekStart : WeekStart := .monday

namespace Context

/-- The context in which `name` has the value `i`, whatever it had before. -/
def bind (ctx : Context) (name : String) (i : Instant) : Context :=
  { ctx with bindings := (name, i) :: ctx.bindings }

/-- The value of a variable. -/
def value? (ctx : Context) (name : String) : Option Instant :=
  ctx.bindings.lookup name

/-- The date of now. -/
def today (ctx : Context) : Date :=
  (ctx.zone.civil ctx.now).date

/-- The calendar covers what the clocks show now, so that it can be said which day is today. -/
def HasToday (ctx : Context) : Prop :=
  (ctx.zone.civil ctx.now).InRange

instance (ctx : Context) : Decidable ctx.HasToday :=
  inferInstanceAs (Decidable (Civil.InRange _))

@[simp] theorem value?_bind (ctx : Context) (name other : String) (i : Instant) :
    (ctx.bind name i).value? other = if other = name then some i else ctx.value? other := by
  simp only [value?, bind, List.lookup_cons]
  by_cases h : other = name
  · simp [h]
  · simp [h, beq_false_of_ne h]

@[simp] theorem now_bind (ctx : Context) (name : String) (i : Instant) :
    (ctx.bind name i).now = ctx.now :=
  rfl

@[simp] theorem zone_bind (ctx : Context) (name : String) (i : Instant) :
    (ctx.bind name i).zone = ctx.zone :=
  rfl

@[simp] theorem weekStart_bind (ctx : Context) (name : String) (i : Instant) :
    (ctx.bind name i).weekStart = ctx.weekStart :=
  rfl

end Context

end Almanac
