import Almanac.Proofs.IsoDate.Form
import Almanac.Proofs.Token.Lexer
import Almanac.Proofs.Zone.Abbreviation

/-!
# ISO dates as tokens

The tokenizer finds an ISO date by the shapes of its parts.  A written date is one
token, and every token of a date that begins with a digit is a written date.

Main results:

- Theorem `fits_isoDateTemplate_iff` and its like: which texts fit the templates.
- Theorem `Lexeme.numeral_isoDate`: a written date is read as one lexeme, whatever
  follows that is no part of a date.
- Theorem `Lexeme.exists_isoDate_of_numeral`: a date that is read is a written one.
- Theorem `tokenize_isoDate`, `exists_isoDate_of_mem`: likewise for all tokens.
-/

namespace Almanac

open Text

variable {cs rest : List Char}

/-! ## Shapes -/

/-- The texts with the shape of a date are a year, a month and a day. -/
theorem fits_isoDateTemplate_iff :
    Fits isoDateTemplate cs ↔ ∃ (year : Fin 10000) (month day : Fin 100),
      cs = fixedDigits 4 year ++ '-' :: fixedDigits 2 month ++ '-' :: fixedDigits 2 day := by
  have htemplate : isoDateTemplate = List.replicate 4 '0' ++ (['-'] ++
      (List.replicate 2 '0' ++ (['-'] ++ List.replicate 2 '0'))) := rfl
  have hdash : '-' ≠ '0' := by decide
  simp only [htemplate, fits_append_iff, fits_replicate_iff, fits_singleton_iff hdash]
  constructor
  · rintro ⟨_, _, rfl, ⟨year, rfl⟩, _, _, rfl, rfl, _, _, rfl, ⟨month, rfl⟩, _, _, rfl, rfl,
      ⟨day, rfl⟩⟩
    exact ⟨year, month, day, by simp⟩
  · rintro ⟨year, month, day, rfl⟩
    exact ⟨_, _, by simp, ⟨year, rfl⟩, _, _, rfl, rfl, _, _, rfl, ⟨month, rfl⟩, _, _, rfl, rfl,
      ⟨day, rfl⟩⟩

/-- The template of a clock time takes two digits on each side of a colon. -/
theorem fits_clockTemplate_iff :
    Fits clockTemplate cs ↔ ∃ hour minute : Fin 100,
      cs = fixedDigits 2 hour ++ ':' :: fixedDigits 2 minute := by
  have htemplate : clockTemplate =
      List.replicate 2 '0' ++ ([':'] ++ List.replicate 2 '0') := rfl
  have hcolon : ':' ≠ '0' := by decide
  simp only [htemplate, fits_append_iff, fits_replicate_iff, fits_singleton_iff hcolon]
  constructor
  · rintro ⟨_, _, rfl, ⟨hour, rfl⟩, _, _, rfl, rfl, ⟨minute, rfl⟩⟩
    exact ⟨hour, minute, rfl⟩
  · rintro ⟨hour, minute, rfl⟩
    exact ⟨_, _, rfl, ⟨hour, rfl⟩, _, _, rfl, rfl, ⟨minute, rfl⟩⟩

/-- The template of seconds takes a colon and two digits. -/
theorem fits_secondsTemplate_iff :
    Fits secondsTemplate cs ↔ ∃ second : Fin 100, cs = ':' :: fixedDigits 2 second := by
  have htemplate : secondsTemplate = [':'] ++ List.replicate 2 '0' := rfl
  have hcolon : ':' ≠ '0' := by decide
  simp only [htemplate, fits_append_iff, fits_replicate_iff, fits_singleton_iff hcolon]
  constructor
  · rintro ⟨_, _, rfl, rfl, second, rfl⟩
    exact ⟨second, rfl⟩
  · rintro ⟨second, rfl⟩
    exact ⟨_, _, rfl, rfl, second, rfl⟩

/-! ## Times of day -/

/-- Without a colon there are no seconds. -/
theorem splitTemplate?_secondsTemplate_eq_none (h : rest.head? ≠ some ':') :
    splitTemplate? secondsTemplate rest = none := by
  cases hsplit : splitTemplate? secondsTemplate rest with
  | none => rfl
  | some split =>
      obtain ⟨hfits, rfl⟩ := splitTemplate?_eq_some_iff.1 hsplit
      obtain ⟨second, hfront⟩ := fits_secondsTemplate_iff.1 hfits
      rw [hfront] at h
      exact absurd rfl h

/-- A time of day is split off the text that it starts. -/
theorem splitClock?_append_of_head (t : IsoTime) (h : rest.head? ≠ some ':') :
    splitClock? (t.text ++ rest) = some (t.text, rest) := by
  obtain ⟨hour, minute, second⟩ := t
  have hclock (after : List Char) :
      splitTemplate? clockTemplate
          (fixedDigits 2 hour ++ ':' :: fixedDigits 2 minute ++ after) =
        some (fixedDigits 2 hour ++ ':' :: fixedDigits 2 minute, after) :=
    splitTemplate?_eq_some_iff.2 ⟨fits_clockTemplate_iff.2 ⟨hour, minute, rfl⟩, rfl⟩
  cases second with
  | none =>
      simp only [IsoTime.text, Option.elim_none, List.append_nil, splitClock?, hclock,
        splitTemplate?_secondsTemplate_eq_none h]
  | some second =>
      have hseconds : splitTemplate? secondsTemplate (':' :: fixedDigits 2 second ++ rest) =
          some (':' :: fixedDigits 2 second, rest) :=
        splitTemplate?_eq_some_iff.2 ⟨fits_secondsTemplate_iff.2 ⟨second, rfl⟩, rfl⟩
      rw [IsoTime.text, Option.elim_some, List.append_assoc, splitClock?, hclock]
      simp only [hseconds]

/-- What is split off as a time of day is one. -/
theorem exists_isoTime_of_splitClock? {clock : List Char}
    (h : splitClock? cs = some (clock, rest)) : ∃ t : IsoTime, clock = t.text := by
  unfold splitClock? at h
  split at h
  · cases h
  · rename_i front after hfront
    obtain ⟨hour, minute, rfl⟩ :=
      fits_clockTemplate_iff.1 (splitTemplate?_eq_some_iff.1 hfront).1
    split at h
    · rename_i seconds after' hseconds
      obtain ⟨second, rfl⟩ :=
        fits_secondsTemplate_iff.1 (splitTemplate?_eq_some_iff.1 hseconds).1
      cases h
      exact ⟨⟨hour, minute, some second⟩, rfl⟩
    · cases h
      exact ⟨⟨hour, minute, none⟩, by simp [IsoTime.text]⟩

/-- A time of day begins with a digit. -/
theorem splitClock?_eq_none (h : cs.head?.any Char.isDigit = false) : splitClock? cs = none := by
  cases hsplit : splitClock? cs with
  | none => rfl
  | some split =>
      obtain ⟨t, htext⟩ := exists_isoTime_of_splitClock? hsplit
      obtain ⟨c, after, hcons, hc⟩ := t.exists_text_eq_cons
      rw [← (Lexeme.splitClock?_append hsplit).1, htext, hcons] at h
      rw [show c.isDigit = false from h] at hc
      cases hc

/-! ## What ends a date -/

namespace EndsDate

/-- After one space, a date goes on with digits or an abbreviation. -/
theorem space (hdigit : rest.head?.any Char.isDigit = false)
    (hname : Zone.isAbbreviation (rest.takeWhile Char.isAlpha) = false) :
    EndsDate (' ' :: rest) where
  toEndsWord := EndsWord.cons rfl rest
  clock := by
    rintro after ⟨⟩
    exact splitClock?_eq_none hdigit
  zone := by
    simp [Lexeme.splitZone, hname]

/-- After one space, a date goes on with a digit or a letter. -/
theorem space_of_head (hdigit : rest.head?.any Char.isDigit = false)
    (halpha : rest.head?.any Char.isAlpha = false) : EndsDate (' ' :: rest) := by
  have hname : rest.takeWhile Char.isAlpha = [] := by
    cases rest with
    | nil => rfl
    | cons c rest => exact List.takeWhile_cons_of_neg (Bool.eq_false_iff.1 halpha)
  exact space hdigit (by rw [hname]; rfl)

/-- After any other blank, a date does not go on. -/
theorem cons {c : Char} (hblank : isAsciiBlank c = true) (hc : c ≠ ' ') (rest : List Char) :
    EndsDate (c :: rest) where
  toEndsWord := EndsWord.cons hblank rest
  clock := by
    rintro after ⟨⟩
    exact absurd rfl hc
  zone := by
    have hne (d : Char) (hd : isAsciiBlank d = false) : c ≠ d := by
      rintro rfl
      rw [hblank] at hd
      cases hd
    simp [Lexeme.splitZone, hne 'Z' rfl, hne '+' rfl, hne '-' rfl]

end EndsDate

/-! ## Zones -/

namespace Lexeme

section Offsets

variable (hour minute : Fin 100) (hrest : EndsWord rest)
include hrest

/-- An offset of hours ends where neither digits nor a colon follow. -/
theorem splitOffset_hours :
    splitOffset (fixedDigits 2 hour ++ rest) = .ok (fixedDigits 2 hour, rest) := by
  have hhour := isDigit_fixedDigits 2 hour.val
  have hdigit := hrest.head_any (p := Char.isDigit) rfl
  simp only [splitOffset, takeWhile_append_of_head hhour hdigit,
    dropWhile_append_of_head hhour hdigit, length_fixedDigits, if_true]
  split
  · exact absurd rfl (hrest.ne_cons (by decide))
  · rfl

/-- An offset with a colon ends with its minutes. -/
theorem splitOffset_colon :
    splitOffset (fixedDigits 2 hour ++ ':' :: fixedDigits 2 minute ++ rest) =
      .ok (fixedDigits 2 hour ++ ':' :: fixedDigits 2 minute, rest) := by
  have hhour := isDigit_fixedDigits 2 hour.val
  have hminute := isDigit_fixedDigits 2 minute.val
  have hdigit := hrest.head_any (p := Char.isDigit) rfl
  have hcolon : (':' :: (fixedDigits 2 minute.val ++ rest)).head?.any Char.isDigit = false := rfl
  simp [splitOffset, takeWhile_append_of_head hhour hcolon, dropWhile_append_of_head hhour hcolon,
    takeWhile_append_of_head hminute hdigit, dropWhile_append_of_head hminute hdigit]

/-- An offset without a colon ends with its minutes too. -/
theorem splitOffset_compact :
    splitOffset (fixedDigits 2 hour ++ fixedDigits 2 minute ++ rest) =
      .ok (fixedDigits 2 hour ++ fixedDigits 2 minute, rest) := by
  have hdigits : ∀ c ∈ fixedDigits 2 hour.val ++ fixedDigits 2 minute.val, c.isDigit = true :=
    List.forall_mem_append.2 ⟨isDigit_fixedDigits 2 _, isDigit_fixedDigits 2 _⟩
  have hdigit := hrest.head_any (p := Char.isDigit) rfl
  simp only [splitOffset, takeWhile_append_of_head hdigits hdigit,
    dropWhile_append_of_head hdigits hdigit, List.length_append, length_fixedDigits]
  rfl

end Offsets

/-- A zone that begins with a sign is an offset. -/
theorem splitZone_sign (negative : Bool) {offset : List Char}
    (h : splitOffset (offset ++ rest) = .ok (offset, rest)) :
    splitZone (IsoZone.sign negative :: offset ++ rest) =
      .ok (IsoZone.sign negative :: offset, rest) := by
  cases negative <;> simp [IsoZone.sign, splitZone, h]

/-- A zone is split off as it is written. -/
theorem splitZone_text (z : IsoZone) (hrest : EndsWord rest) :
    splitZone (z.text ++ rest) = .ok (z.text, rest) := by
  cases z with
  | utc => rfl
  | hours negative hour => exact splitZone_sign negative (splitOffset_hours hour hrest)
  | hoursMinutes negative colon hour minute =>
      cases colon with
      | true => exact splitZone_sign negative (splitOffset_colon hour minute hrest)
      | false => exact splitZone_sign negative (splitOffset_compact hour minute hrest)
  | named name offset known =>
      obtain ⟨hletters, hmin, hmax⟩ := Zone.name_bounds known
      have hknown : Zone.isAbbreviation name = true :=
        Zone.isAbbreviation_iff.2 ⟨offset, Zone.abbreviationOffset?_eq_some_iff.2 known⟩
      have halpha := hrest.head_any (p := Char.isAlpha) rfl
      have halnum := hrest.head_any (p := Char.isAlphanum) rfl
      simp [IsoZone.text, splitZone, takeWhile_append_of_head hletters halpha,
        dropWhile_append_of_head hletters halpha, halnum, hmin, hmax, hknown]

/-- What is split off as an offset has one of the three forms. -/
theorem exists_isoZone_of_splitOffset {offset : List Char} (negative : Bool)
    (h : splitOffset cs = .ok (offset, rest)) :
    ∃ z : IsoZone, IsoZone.sign negative :: offset = z.text := by
  have htake (cs : List Char) : ∀ c ∈ cs.takeWhile Char.isDigit, c.isDigit = true :=
    fun c hc => List.mem_takeWhile_imp hc
  have hdigits := htake cs
  simp only [splitOffset] at h
  generalize cs.takeWhile Char.isDigit = digits at h hdigits
  generalize cs.dropWhile Char.isDigit = after at h
  split at h
  · rename_i htwo
    obtain ⟨hour, rfl⟩ := exists_fixedDigits_iff.2 ⟨htwo, hdigits⟩
    split at h
    · rename_i afterColon
      split at h
      · rename_i hminute
        obtain ⟨minute, hminute⟩ := exists_fixedDigits_iff.2 ⟨hminute, htake afterColon⟩
        cases h
        exact ⟨.hoursMinutes negative true hour minute, by rw [hminute]; rfl⟩
      · cases h
    · cases h
      exact ⟨.hours negative hour, rfl⟩
  · split at h
    · rename_i hfour
      obtain ⟨hour, hhour⟩ := exists_fixedDigits_iff.2
        ⟨show (digits.take 2).length = 2 by simp [hfour],
          fun c hc => hdigits c (List.mem_of_mem_take hc)⟩
      obtain ⟨minute, hminute⟩ := exists_fixedDigits_iff.2
        ⟨show (digits.drop 2).length = 2 by simp [hfour],
          fun c hc => hdigits c (List.mem_of_mem_drop hc)⟩
      cases h
      refine ⟨.hoursMinutes negative false hour minute, ?_⟩
      rw [IsoZone.text, ← hhour, ← hminute, List.take_append_drop]
    · cases h

/-- What is split off as a zone is nothing or one of the forms of zones. -/
theorem exists_isoZone_of_splitZone {zone : List Char} (h : splitZone cs = .ok (zone, rest)) :
    zone = [] ∨ ∃ z : IsoZone, zone = z.text := by
  unfold splitZone at h
  split at h
  · cases h
    exact .inr ⟨.utc, rfl⟩
  · simp only at h
    split at h
    · rename_i hname
      obtain ⟨-, -, -, hknown⟩ := hname
      obtain ⟨offset, hoffset⟩ := Zone.isAbbreviation_iff.1 hknown
      cases h
      exact .inr ⟨.named _ offset (Zone.abbreviationOffset?_eq_some_iff.1 hoffset), rfl⟩
    · cases h
      exact .inl rfl
  · split at h
    · rename_i hsign
      split at h
      · rename_i offset after hoffset
        cases h
        right
        rcases hsign with rfl | rfl
        · exact exists_isoZone_of_splitOffset false hoffset
        · exact exists_isoZone_of_splitOffset true hoffset
      · cases h
    · cases h
      exact .inl rfl
  · cases h
    exact .inl rfl

/-! ## One lexeme -/

/-- A zone is split off as it is written, if the date ends behind it. -/
theorem splitZone_zoneText (c : IsoClock) (hrest : EndsDate rest) :
    splitZone (c.zoneText ++ rest) = .ok (c.zoneText, rest) := by
  rw [IsoClock.zoneText]
  cases c.zone with
  | none => exact hrest.zone
  | some z => exact splitZone_text z hrest.toEndsWord

/-- No part of a clock, and nothing that ends a date, begins with a colon. -/
theorem head_zoneText_append (c : IsoClock) (hrest : EndsDate rest) :
    (c.zoneText ++ rest).head? ≠ some ':' := by
  intro hcolon
  rw [List.head?_append, Option.or_eq_some_iff] at hcolon
  rcases hcolon with hzone | ⟨-, hafter⟩
  · exact absurd (c.head_zoneText ':' hzone) (by decide)
  · exact absurd (hrest.blank ':' hafter) (by decide)

/-- A written date is read as one lexeme. -/
theorem numeral_isoDate (d : IsoDate) (hrest : EndsDate rest) :
    numeral (d.text ++ rest) = .ok { kind := .date, text := d.text, rest := rest } := by
  have hday : splitTemplate? isoDateTemplate (d.text ++ rest) =
      some (d.dayText, d.clockText ++ rest) :=
    splitTemplate?_eq_some_iff.2 ⟨fits_isoDateTemplate_iff.2 ⟨d.year, d.month, d.day, rfl⟩,
      List.append_assoc ..⟩
  rw [numeral, hday]
  rw [IsoDate.clockText, IsoDate.text, IsoDate.clockText]
  cases d.clock with
  | none =>
      simp only [Option.elim_none, List.nil_append, List.append_nil, isoDate]
      split
      · exact absurd rfl (hrest.ne_cons (by decide))
      · rw [hrest.clock _ rfl]
      · rfl
  | some clock =>
      have hclock := splitClock?_append_of_head clock.time (head_zoneText_append clock hrest)
      have hzone := splitZone_zoneText clock hrest
      obtain ⟨spaced, time, zone⟩ := clock
      cases spaced <;>
        simp [isoDate, isoDateTime, IsoClock.text, IsoClock.separator, hclock, hzone]

/-- Behind a time there is nothing else in the token than a zone. -/
theorem exists_zone_of_isoDateTime {dateTime : List Char} {l : Lexeme}
    (h : isoDateTime dateTime cs = .ok l) :
    ∃ zone : Option IsoZone, l.text = dateTime ++ zone.elim [] IsoZone.text := by
  unfold isoDateTime at h
  split at h
  · rename_i zone rest hzone
    cases h
    rcases exists_isoZone_of_splitZone hzone with rfl | ⟨z, rfl⟩
    · exact ⟨none, rfl⟩
    · exact ⟨some z, rfl⟩
  · cases h

/-- A time of day after a separator, with a zone or without, is a clock. -/
theorem exists_isoClock_of_isoDateTime {date clock : List Char} {l : Lexeme} (spaced : Bool)
    {separator : Char} (hseparator : separator = if spaced then ' ' else 'T')
    (hclock : splitClock? cs = some (clock, rest))
    (h : isoDateTime (date ++ separator :: clock) rest = .ok l) :
    ∃ c : IsoClock, l.text = date ++ c.text := by
  obtain ⟨t, rfl⟩ := exists_isoTime_of_splitClock? hclock
  obtain ⟨zone, hzone⟩ := exists_zone_of_isoDateTime h
  refine ⟨⟨spaced, t, zone⟩, ?_⟩
  rw [hzone, List.append_assoc, hseparator]
  rfl

/-- Behind a date there is nothing else in the token than a time and a zone. -/
theorem exists_clock_of_isoDate {date : List Char} {l : Lexeme} (h : isoDate date cs = .ok l) :
    ∃ clock : Option IsoClock, l.text = date ++ clock.elim [] IsoClock.text := by
  unfold isoDate at h
  split at h
  · split at h
    · rename_i clock rest hclock
      obtain ⟨c, hc⟩ := exists_isoClock_of_isoDateTime false rfl hclock h
      exact ⟨some c, hc⟩
    · cases h
  · split at h
    · rename_i clock rest hclock
      obtain ⟨c, hc⟩ := exists_isoClock_of_isoDateTime true rfl hclock h
      exact ⟨some c, hc⟩
    · cases h
      exact ⟨none, (List.append_nil date).symm⟩
  · cases h
    exact ⟨none, (List.append_nil date).symm⟩

/-- A date that begins with a digit is a written one. -/
theorem exists_isoDate_of_numeral {l : Lexeme} (h : numeral cs = .ok l)
    (hkind : l.kind = .date) : ∃ d : IsoDate, l.text = d.text := by
  unfold numeral at h
  split at h
  · rename_i date rest hdate
    obtain ⟨year, month, day, rfl⟩ :=
      fits_isoDateTemplate_iff.1 (splitTemplate?_eq_some_iff.1 hdate).1
    obtain ⟨clock, hclock⟩ := exists_clock_of_isoDate h
    exact ⟨⟨year, month, day, clock⟩, hclock⟩
  · split at h
    · cases h
      cases hkind
    · cases h
      simp only [quantity] at hkind
      split at hkind <;> cases hkind

end Lexeme

/-! ## All tokens -/

/-- A written date is one token. -/
theorem tokenize_isoDate (d : IsoDate) :
    tokenize d.source = .ok
      [{ kind := .date, text := d.source, pos := 0 },
        { kind := .eof, text := "", pos := byteLength d.text }] := by
  obtain ⟨c, rest, htext, hc⟩ := d.exists_text_eq_cons
  have hread : Lexeme.read c rest = .ok { kind := .date, text := d.text, rest := [] } := by
    have hnumeral := Lexeme.numeral_isoDate d EndsDate.nil
    rw [List.append_nil] at hnumeral
    rw [Lexeme.read_of_isDigit hc, ← htext, hnumeral]
  have hblank := not_isAsciiBlank_of_isDigit hc
  rw [tokenize, IsoDate.toList_source, htext, tokensFrom_of_read 0 hblank hread, tokensFrom_nil]
  simp [Except.map, Lexeme.token, IsoDate.source, htext]

/-- Every date among the tokens that begins with a digit is a written one. -/
theorem exists_isoDate_of_mem {source : String} {tokens : List Token} {t : Token}
    (h : tokenize source = .ok tokens) (ht : t ∈ tokens) (hkind : t.kind = .date)
    (hdigit : t.text.toList.head?.any Char.isDigit = true) : ∃ d : IsoDate, t.text = d.source := by
  rcases exists_read_of_mem_tokens h ht with heof | ⟨c, rest, l, start, hread, rfl⟩
  · rw [hkind] at heof
    cases heof
  · have hl : l.kind = .date := hkind
    have htext : (l.token start).text = String.ofList l.text := by
      simp [Lexeme.token, hl]
    rw [htext] at hdigit ⊢
    -- The first character of a lexeme is the one it was found by.
    obtain ⟨happend, hne⟩ := Lexeme.read_append hread
    obtain ⟨first, after, hfirst⟩ := List.exists_cons_of_ne_nil hne
    rw [hfirst] at happend
    obtain ⟨rfl, -⟩ := List.cons.inj happend
    rw [String.toList_ofList, hfirst] at hdigit
    have hdigit : first.isDigit = true := hdigit
    rw [Lexeme.read_of_isDigit hdigit] at hread
    obtain ⟨d, hd⟩ := Lexeme.exists_isoDate_of_numeral hread hl
    exact ⟨d, by rw [hd, IsoDate.source]⟩

end Almanac
