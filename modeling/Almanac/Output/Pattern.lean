import Almanac.Output.Reading

/-!
# Patterns for dates and times

A pattern is a text in which a percent sign and the characters after it stand for a
part of a reading.  A numeric part is filled to a fixed width with zeros, with spaces or
not at all; a dash, a zero or an underscore after the percent sign chooses between
them.

Main definitions:

- `Item`: the parts that a pattern is made of.
- `directive?`: the items that stand for one percent sign.
- `items?`: the items of a text, if all its percent signs are known.
- `Item.write?`: what an item shows of a reading.
- `Pattern`, `Pattern.write?`: a text with its items, and what it shows of a reading.
-/

namespace Almanac

open Text

/-! ## Items -/

/-- What fills a number that has fewer digits than its width. -/
inductive Padding where
  | none | zero | space
deriving DecidableEq, Repr

/-- The parts of a reading that are numbers. -/
inductive NumericItem where
  | year | century | yearOfCentury
  /-- The year that owns the week. -/
  | isoYear
  /-- That year within its century. -/
  | isoYearOfCentury
  | quarter | month | day
  /-- The week of the year, by the day that weeks begin on. -/
  | week (start : WeekStart)
  | isoWeek
  /-- The weekday, from 0 for Sunday. -/
  | weekdayFromSunday
  /-- The weekday, from 1 for Monday. -/
  | weekdayFromMonday
  | dayOfYear | hour
  /-- The hour on a clock with twelve of them. -/
  | hour12
  | minute | second | nanosecond | unix
deriving DecidableEq, Repr

/-- The parts of a reading that are texts. -/
inductive TextItem where
  | monthName | monthShortName | weekdayName | weekdayShortName
  /-- Before or after noon, in capitals or not. -/
  | halfDay (capital : Bool)
  /-- A point and as many digits as are needed. -/
  | fraction
  /-- So many digits, three to nine, after a point or without. -/
  | digits (width : Nat) (point : Bool)
  | zoneName
  | offset (style : OffsetStyle)
  | dateTime
deriving DecidableEq, Repr

/-- The parts that a pattern is made of. -/
inductive Item where
  /-- A character that stands for itself. -/
  | literal (c : Char)
  | number (item : NumericItem) (padding : Padding)
  | text (item : TextItem)
  /-- An offset that can be read but not written. -/
  | unwritable
deriving DecidableEq, Repr

/-! ## Reading a pattern -/

/-- Hours, minutes and seconds. -/
def clockItems : List Item :=
  [.number .hour .zero, .literal ':', .number .minute .zero, .literal ':', .number .second .zero]

/-- Month, day and year of the century. -/
def slashItems : List Item :=
  [.number .month .zero, .literal '/', .number .day .zero, .literal '/',
    .number .yearOfCentury .zero]

/-- The items that one letter stands for. -/
def letterItems? : Char → Option (List Item)
  | 'A' => some [.text .weekdayName]
  | 'B' => some [.text .monthName]
  | 'C' => some [.number .century .zero]
  | 'D' | 'x' => some slashItems
  | 'F' => some [.number .year .zero, .literal '-', .number .month .zero, .literal '-',
      .number .day .zero]
  | 'G' => some [.number .isoYear .zero]
  | 'H' => some [.number .hour .zero]
  | 'I' => some [.number .hour12 .zero]
  | 'M' => some [.number .minute .zero]
  | 'P' => some [.text (.halfDay false)]
  | 'R' => some [.number .hour .zero, .literal ':', .number .minute .zero]
  | 'S' => some [.number .second .zero]
  | 'T' | 'X' => some clockItems
  | 'U' => some [.number (.week .sunday) .zero]
  | 'V' => some [.number .isoWeek .zero]
  | 'W' => some [.number (.week .monday) .zero]
  | 'Y' => some [.number .year .zero]
  | 'Z' => some [.text .zoneName]
  | 'a' => some [.text .weekdayShortName]
  | 'b' | 'h' => some [.text .monthShortName]
  | 'c' => some ([.text .weekdayShortName, .literal ' ', .text .monthShortName, .literal ' ',
      .number .day .space, .literal ' '] ++ clockItems ++ [.literal ' ', .number .year .zero])
  | 'd' => some [.number .day .zero]
  | 'e' => some [.number .day .space]
  | 'f' => some [.number .nanosecond .zero]
  | 'g' => some [.number .isoYearOfCentury .zero]
  | 'j' => some [.number .dayOfYear .zero]
  | 'k' => some [.number .hour .space]
  | 'l' => some [.number .hour12 .space]
  | 'm' => some [.number .month .zero]
  | 'n' => some [.literal '\n']
  | 'p' => some [.text (.halfDay true)]
  | 'q' => some [.number .quarter .none]
  | 'r' => some ([.number .hour12 .zero, .literal ':', .number .minute .zero, .literal ':',
      .number .second .zero, .literal ' ', .text (.halfDay true)])
  | 's' => some [.number .unix .none]
  | 't' => some [.literal '\t']
  | 'u' => some [.number .weekdayFromMonday .none]
  | 'v' => some [.number .day .space, .literal '-', .text .monthShortName, .literal '-',
      .number .year .zero]
  | 'w' => some [.number .weekdayFromSunday .none]
  | 'y' => some [.number .yearOfCentury .zero]
  | 'z' => some [.text (.offset .compact)]
  | '+' => some [.text .dateTime]
  | '%' => some [.literal '%']
  | _ => none

/-- The items of the longer directives, after the percent sign, and the text after them. -/
def longDirective? : List Char → Option (List Item × List Char)
  | ':' :: 'z' :: rest => some ([.text (.offset .minutes)], rest)
  | ':' :: ':' :: 'z' :: rest => some ([.text (.offset .seconds)], rest)
  | ':' :: ':' :: ':' :: 'z' :: rest => some ([.text (.offset .hours)], rest)
  | '.' :: 'f' :: rest => some ([.text .fraction], rest)
  | '.' :: '3' :: 'f' :: rest => some ([.text (.digits 3 true)], rest)
  | '.' :: '6' :: 'f' :: rest => some ([.text (.digits 6 true)], rest)
  | '.' :: '9' :: 'f' :: rest => some ([.text (.digits 9 true)], rest)
  | '3' :: 'f' :: rest => some ([.text (.digits 3 false)], rest)
  | '6' :: 'f' :: rest => some ([.text (.digits 6 false)], rest)
  | '9' :: 'f' :: rest => some ([.text (.digits 9 false)], rest)
  | '#' :: 'z' :: rest => some ([.unwritable], rest)
  | _ => none

/-- The padding that a character after a percent sign chooses. -/
def paddingOf? : Char → Option Padding
  | '-' => some .none
  | '0' => some .zero
  | '_' => some .space
  | _ => none

/-- The items with another padding, which only a single number can have. -/
def repad? (padding : Padding) : List Item → Option (List Item)
  | [.number item _] => some [.number item padding]
  | _ => none

/-- The items that stand for a percent sign and the text after it, and what follows them. -/
def directive? (cs : List Char) : Option (List Item × List Char) :=
  match cs with
  | [] => none
  | c :: rest =>
    match paddingOf? c, rest with
    | some _, [] => none
    | some padding, letter :: after => do
      let items ← letterItems? letter
      let padded ← repad? padding items
      some (padded, after)
    | none, _ =>
      match letterItems? c with
      | some items => some (items, rest)
      | none => longDirective? cs

/-- What follows a longer directive is shorter. -/
theorem length_lt_of_longDirective? {cs rest : List Char} {items : List Item}
    (h : longDirective? cs = some (items, rest)) : rest.length < cs.length := by
  unfold longDirective? at h
  split at h
  case h_12 => cases h
  all_goals
    cases h
    simp only [List.length_cons]
    omega

/-- What follows the items of a percent sign is shorter. -/
theorem length_lt_of_directive? {cs rest : List Char} {items : List Item}
    (h : directive? cs = some (items, rest)) : rest.length < cs.length := by
  unfold directive? at h
  split at h
  · cases h
  · split at h
    · cases h
    · simp only [Option.bind_eq_bind, Option.bind_eq_some_iff, Option.some.injEq,
        Prod.mk.injEq] at h
      obtain ⟨_, _, _, _, _, rfl⟩ := h
      simp only [List.length_cons]
      omega
    · split at h
      · cases h
        simp
      · exact length_lt_of_longDirective? h

/-- The items that a text is made of, if all its percent signs are known. -/
def items? : List Char → Option (List Item)
  | [] => some []
  | c :: cs =>
    if c = '%' then
      match h : directive? cs with
      | none => none
      | some (items, rest) =>
        have := length_lt_of_directive? h
        (items? rest).map (items ++ ·)
    else (items? cs).map (.literal c :: ·)
termination_by cs => cs.length

/-! ## Writing -/

/-- A number in at least `width` characters, its sign among them.  The sign of a number
that is not negative is written only if asked for. -/
def numberText (padding : Padding) (width : Nat) (plus : Bool) (n : Int) : List Char :=
  let sign := if n < 0 then ['-'] else if plus then ['+'] else []
  match padding with
  | .none => sign ++ plain n.natAbs
  | .zero => sign ++ padded (width - sign.length) n.natAbs
  | .space => fillLeft ' ' width (sign ++ plain n.natAbs)

/-- A year in four digits; outside 0 to 9999 with its sign, in five characters. -/
def yearNumber (padding : Padding) (year : Int) : List Char :=
  if 0 ≤ year ∧ year ≤ 9999 then numberText padding 4 false year
  else numberText padding 5 true year

/-- A number in two characters, the first of which is the number of its tens.  From a
hundred on that is no digit, but the character so many places after zero. -/
def twoDigits (padding : Padding) (n : Nat) : List Char :=
  let tens := n / 10
  let ones := Nat.digitChar (n % 10)
  if tens = 0 then
    match padding with
    | .none => [ones]
    | .zero => ['0', ones]
    | .space => [' ', ones]
  else [Char.ofNat ('0'.toNat + tens), ones]

/-- The century of a year, as the remainder on division by 256 that a byte can hold. -/
def centuryByte (year : Int) : Nat :=
  (year / 100 % 256).toNat

/-- What a numeric item shows of a reading. -/
def NumericItem.write (item : NumericItem) (padding : Padding) (r : Reading) : List Char :=
  match item with
  | year => yearNumber padding r.date.year
  | century => twoDigits padding (centuryByte r.date.year)
  | yearOfCentury => twoDigits padding (r.date.year % 100).toNat
  | isoYear => yearNumber padding r.date.isoYear
  | isoYearOfCentury => twoDigits padding (r.date.isoYear % 100).toNat
  | quarter => plain r.date.quarter
  | month => twoDigits padding r.date.month
  | day => twoDigits padding r.date.day
  | week start => twoDigits padding (r.date.weekOfYear start)
  | isoWeek => twoDigits padding r.date.isoWeek
  | weekdayFromSunday => plain r.date.weekday.sinceSunday
  | weekdayFromMonday => plain (r.date.weekday.sinceMonday + 1)
  | dayOfYear => numberText padding 3 false (r.date.ordinal + 1 : Nat)
  | hour => twoDigits padding r.time.hour
  | hour12 => twoDigits padding r.time.hour12
  | minute => twoDigits padding r.time.minute
  | second => twoDigits padding r.time.shownSecond
  | nanosecond => numberText padding 9 false (r.time.shownNanos : Nat)
  | unix => numberText padding 9 false r.unix

/-- The name of the half of the day, before or after noon. -/
def halfDayText (capital : Bool) (hour : Nat) : List Char :=
  match capital, decide (hour < 12) with
  | true, true => ['A', 'M']
  | true, false => ['P', 'M']
  | false, true => ['a', 'm']
  | false, false => ['p', 'm']

/-- What an item of text shows of a reading. -/
def TextItem.write (item : TextItem) (r : Reading) : List Char :=
  match item with
  | monthName => (Almanac.monthName r.date.month).toList
  | monthShortName => (Almanac.monthShortName r.date.month).toList
  | weekdayName => r.date.weekday.name.toList
  | weekdayShortName => r.date.weekday.shortName.toList
  | halfDay capital => halfDayText capital r.time.hour
  | fraction => TimeOfDay.fractionText r.time.shownNanos
  | digits width point =>
    let digits := padded width (r.time.shownNanos / Nat.pow 10 (9 - width))
    if point then '.' :: digits else digits
  | zoneName => r.regime.abbreviation.toList
  | offset style => style.write r.regime.offset
  | dateTime => dateTimeText true r ++ OffsetStyle.minutes.write r.regime.offset

/-- What an item shows of a reading, unless it cannot be written. -/
def Item.write? (item : Item) (r : Reading) : Option (List Char) :=
  match item with
  | literal c => some [c]
  | number item padding => some (item.write padding r)
  | text item => some (item.write r)
  | unwritable => none

/-- What items show of a reading, one after the other, unless one cannot be written. -/
def writeItems? (r : Reading) : List Item → Option (List Char)
  | [] => some []
  | item :: rest => do
    let front ← item.write? r
    let back ← writeItems? r rest
    some (front ++ back)

/-! ## Patterns -/

/-- A text with the items that it is made of. -/
structure Pattern where
  source : String
  items : List Item
  items_eq : items? source.toList = some items
deriving DecidableEq

/-- The pattern that a text is, if all its percent signs are known. -/
def Pattern.ofText? (source : String) : Option Pattern :=
  match h : items? source.toList with
  | none => none
  | some items => some { source := source, items := items, items_eq := h }

/-- What a pattern shows of a reading, unless it cannot be written. -/
def Pattern.write? (p : Pattern) (r : Reading) : Option (List Char) :=
  writeItems? r p.items

end Almanac
