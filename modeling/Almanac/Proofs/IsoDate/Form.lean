import Almanac.Calendar.Civil
import Almanac.Proofs.Text.Digits
import Almanac.Zone.Abbreviation

/-!
# The form of an ISO date

An ISO date is a day, which a time of day can follow after a `T` or one space, which a
zone can follow in turn.  Here the form is a data type: the fields with as many digits
as they are written with, and the choices between the ways to write them.  It does not
mention how such a text is read.

Main definitions:

- `IsoDate`, `IsoClock`, `IsoTime`, `IsoZone`: a written date and its parts.
- `IsoDate.text`, `IsoDate.source`: how they are written.
- `IsoDate.InRange`: whether every field has a value that a calendar or clock can show.
- `IsoDate.Shows`, `IsoDate.offset?`: the civil time and the offset that are meant.
-/

namespace Almanac

open Text

/-- A zone as it is written after a time of day. -/
inductive IsoZone where
  /-- The letter `Z`. -/
  | utc
  /-- A sign and hours. -/
  | hours (negative : Bool) (hour : Fin 100)
  /-- A sign, hours and minutes, with a colon between the two or without. -/
  | hoursMinutes (negative colon : Bool) (hour minute : Fin 100)
  /-- A space and an abbreviation, in letters of either case. -/
  | named (name : List Char) (offset : Int)
      (known : (String.ofList (name.map Char.toUpper), offset) ∈ Zone.abbreviations)

/-- A time of day as it is written, with seconds or without. -/
structure IsoTime where
  hour : Fin 100
  minute : Fin 100
  second : Option (Fin 100)

/-- A time of day, and perhaps a zone, as they are written after a day. -/
structure IsoClock where
  /-- Whether a space stands before the time, and not a `T`. -/
  spaced : Bool
  time : IsoTime
  zone : Option IsoZone

/-- An ISO date as it is written. -/
structure IsoDate where
  year : Fin 10000
  month : Fin 100
  day : Fin 100
  clock : Option IsoClock

/-! ## Writing -/

namespace IsoZone

/-- The sign of an offset. -/
def sign (negative : Bool) : Char :=
  if negative then '-' else '+'

/-- The text of a zone. -/
def text : IsoZone → List Char
  | utc => ['Z']
  | hours negative hour => sign negative :: fixedDigits 2 hour
  | hoursMinutes negative true hour minute =>
    sign negative :: (fixedDigits 2 hour ++ ':' :: fixedDigits 2 minute)
  | hoursMinutes negative false hour minute =>
    sign negative :: (fixedDigits 2 hour ++ fixedDigits 2 minute)
  | named name _ _ => ' ' :: name

end IsoZone

/-- Hours, minutes, and seconds if there are any. -/
def IsoTime.text (t : IsoTime) : List Char :=
  fixedDigits 2 t.hour ++ ':' :: fixedDigits 2 t.minute ++
    t.second.elim [] fun second => ':' :: fixedDigits 2 second

/-- A time of day begins with a digit. -/
theorem IsoTime.exists_text_eq_cons (t : IsoTime) :
    ∃ c rest, t.text = c :: rest ∧ c.isDigit = true := by
  obtain ⟨c, digits, hhour, hc⟩ := exists_fixedDigits_eq_cons (by decide : 0 < 2) t.hour.val
  exact ⟨c, _, by rw [IsoTime.text, hhour]; rfl, hc⟩

namespace IsoClock

/-- The zone, if there is one. -/
def zoneText (c : IsoClock) : List Char :=
  c.zone.elim [] IsoZone.text

/-- A zone begins with a letter `Z`, a sign or a space. -/
theorem head_zoneText (c : IsoClock) : ∀ x ∈ c.zoneText.head?, x ∈ ['Z', '+', '-', ' '] := by
  rw [zoneText]
  cases c.zone with
  | none =>
      intro x hx
      cases hx
  | some zone =>
      intro x hx
      cases zone with
      | utc =>
          cases hx
          decide
      | hours negative hour =>
          cases hx
          cases negative <;> decide
      | hoursMinutes negative colon hour minute =>
          cases colon <;> cases hx <;> cases negative <;> decide
      | named name offset known =>
          cases hx
          decide

/-- The character before the time of day. -/
def separator (c : IsoClock) : Char :=
  if c.spaced then ' ' else 'T'

/-- The text of a time of day and a zone. -/
def text (c : IsoClock) : List Char :=
  c.separator :: (c.time.text ++ c.zoneText)

end IsoClock

namespace IsoDate

/-- Year, month and day. -/
def dayText (d : IsoDate) : List Char :=
  fixedDigits 4 d.year ++ '-' :: fixedDigits 2 d.month ++ '-' :: fixedDigits 2 d.day

/-- What follows the day. -/
def clockText (d : IsoDate) : List Char :=
  d.clock.elim [] IsoClock.text

/-- The text of an ISO date. -/
def text (d : IsoDate) : List Char :=
  d.dayText ++ d.clockText

/-- The text of an ISO date, as a string. -/
def source (d : IsoDate) : String :=
  String.ofList d.text

theorem toList_source (d : IsoDate) : d.source.toList = d.text := by
  rw [source, String.toList_ofList]

/-- An ISO date begins with a digit. -/
theorem exists_text_eq_cons (d : IsoDate) : ∃ c rest, d.text = c :: rest ∧ c.isDigit = true := by
  obtain ⟨c, digits, hyear, hc⟩ := exists_fixedDigits_eq_cons (by decide : 0 < 4) d.year.val
  exact ⟨c, _, by rw [text, dayText, hyear]; rfl, hc⟩

end IsoDate

/-! ## Fields in range -/

/-- An offset has at most 23 hours and 59 minutes. -/
def IsoZone.InRange : IsoZone → Prop
  | utc => True
  | hours _ hour => hour.val ≤ 23
  | hoursMinutes _ _ hour minute => hour.val ≤ 23 ∧ minute.val ≤ 59
  | named _ _ _ => True

instance : DecidablePred IsoZone.InRange
  | .utc => .isTrue trivial
  | .hours _ hour => inferInstanceAs (Decidable (hour.val ≤ 23))
  | .hoursMinutes _ _ hour minute =>
    inferInstanceAs (Decidable (hour.val ≤ 23 ∧ minute.val ≤ 59))
  | .named _ _ _ => .isTrue trivial

/-- A clock shows at most 23 hours, 59 minutes and, in a leap second, 60 seconds. -/
structure IsoTime.InRange (t : IsoTime) : Prop where
  hour : t.hour.val ≤ 23
  minute : t.minute.val ≤ 59
  second : ∀ second ∈ t.second, second.val ≤ 60

/-- A calendar has twelve months, and in each the days of that month. -/
structure IsoDate.InRange (d : IsoDate) : Prop where
  month : 1 ≤ d.month.val ∧ d.month.val ≤ 12
  day : 1 ≤ d.day.val ∧ d.day.val ≤ daysInMonth d.year.val d.month.val
  time : ∀ clock ∈ d.clock, clock.time.InRange
  zone : ∀ clock ∈ d.clock, ∀ zone ∈ clock.zone, zone.InRange

/-! ## Meaning -/

/-- The seconds by which a zone is ahead of UTC. -/
def IsoZone.offset : IsoZone → Int
  | utc => 0
  | hours negative hour => (if negative then -1 else 1) * (hour.val * 3600 : Int)
  | hoursMinutes negative _ hour minute =>
    (if negative then -1 else 1) * (hour.val * 3600 + minute.val * 60 : Int)
  | named _ offset _ => offset

namespace IsoDate

/-- The hour that is written, or midnight's. -/
def hour (d : IsoDate) : Nat :=
  d.clock.elim 0 fun clock => clock.time.hour

/-- The minute that is written, or midnight's. -/
def minute (d : IsoDate) : Nat :=
  d.clock.elim 0 fun clock => clock.time.minute

/-- The second that is written, or 0. -/
def second (d : IsoDate) : Nat :=
  (d.clock.bind fun clock => clock.time.second).elim 0 Fin.val

/-- The offset that is written, if there is one. -/
def offset? (d : IsoDate) : Option Int :=
  (d.clock.bind IsoClock.zone).map IsoZone.offset

/-- A civil time is the one that an ISO date is about: each field is what is written, and
second 60 is the leap second after second 59. -/
structure Shows (d : IsoDate) (c : Civil) : Prop where
  year : c.date.year = d.year.val
  month : c.date.month = d.month.val
  day : c.date.day = d.day.val
  hour : c.time.hour = d.hour
  minute : c.time.minute = d.minute
  second : c.time.second = min d.second 59
  nanos : c.nanos = if d.second = 60 then nanosPerSecond else 0

end IsoDate

end Almanac
