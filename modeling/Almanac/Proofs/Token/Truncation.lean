import Almanac.Proofs.Token.Continuation

/-!
# Texts that are cut short

A text may be cut short behind one of its lexemes, or anywhere later: the lexeme is read as it
was before.  Readers take in what they can, so a shorter text gives them no more than they had.
Only the name of a zone depends on what comes after it, since it must not go on as a word: a
text that is cut within a word could leave the name of a zone.

Main definitions:

- `NoNewZone`: a text with no zone at its beginning, unless it has one when it is cut short.

Main results:

- Theorem `Lexeme.read_of_followed`: a lexeme is read as before when the text is cut short.
-/

namespace Almanac

open Text

variable {cs cut rest front : List Char} {l : Lexeme}

namespace Lexeme

/-! ## Runs and templates -/

/-- A run that ends before the cut is the same without what is cut off. -/
theorem span_of_append {p : Char → Bool} (h : (cs ++ cut).dropWhile p = rest ++ cut) :
    cs.takeWhile p = (cs ++ cut).takeWhile p ∧ cs.dropWhile p = rest := by
  have hcs : (cs ++ cut).takeWhile p ++ rest = cs := by
    have happend := List.takeWhile_append_dropWhile (p := p) (l := cs ++ cut)
    rw [h, ← List.append_assoc] at happend
    exact List.append_cancel_right happend
  have hfront : ∀ c ∈ (cs ++ cut).takeWhile p, p c = true := fun c hc => List.mem_takeWhile_imp hc
  have hhead : rest.head?.any p = false := by
    have hstop := List.head?_dropWhile_not p (cs ++ cut)
    rw [h] at hstop
    cases rest with
    | nil => rfl
    | cons c rest => simpa using hstop
  generalize (cs ++ cut).takeWhile p = front at hcs hfront
  subst hcs
  exact ⟨takeWhile_append_of_head hfront hhead, dropWhile_append_of_head hfront hhead⟩

/-- A template that is found in the whole is found before the cut. -/
theorem splitTemplate?_of_append {template : List Char}
    (h : splitTemplate? template (cs ++ cut) = some (front, rest ++ cut)) :
    splitTemplate? template cs = some (front, rest) := by
  obtain ⟨hfits, hcs⟩ := splitTemplate?_eq_some_iff.1 h
  rw [← List.append_assoc] at hcs
  exact splitTemplate?_eq_some_iff.2 ⟨hfits, List.append_cancel_right hcs⟩

/-- A template that is missing from the whole is missing before the cut. -/
theorem splitTemplate?_eq_none_of_append {template : List Char}
    (h : splitTemplate? template (cs ++ cut) = none) : splitTemplate? template cs = none := by
  cases hsplit : splitTemplate? template cs with
  | none => rfl
  | some split =>
      obtain ⟨hfits, rfl⟩ := splitTemplate?_eq_some_iff.1 hsplit
      have hlonger := splitTemplate?_eq_some_iff.2 ⟨hfits, List.append_assoc split.1 split.2 cut⟩
      rw [h] at hlonger
      cases hlonger

/-- A clock time that is found in the whole is found before the cut. -/
theorem splitClock?_of_append (h : splitClock? (cs ++ cut) = some (front, rest ++ cut)) :
    splitClock? cs = some (front, rest) := by
  unfold splitClock? at h
  split at h
  · cases h
  · rename_i clock after hclock
    split at h
    · rename_i seconds rest' hseconds
      obtain ⟨rfl, rfl⟩ : clock ++ seconds = front ∧ rest' = rest ++ cut := by simpa using h
      rw [← splitTemplate?_append hseconds, ← List.append_assoc] at hclock hseconds
      rw [splitClock?, splitTemplate?_of_append hclock]
      simp only [splitTemplate?_of_append hseconds]
    · rename_i hseconds
      obtain ⟨rfl, rfl⟩ : clock = front ∧ after = rest ++ cut := by simpa using h
      rw [splitClock?, splitTemplate?_of_append hclock]
      simp only [splitTemplate?_eq_none_of_append hseconds]

/-- A clock time that is missing from the whole is missing before the cut. -/
theorem splitClock?_eq_none_of_append (h : splitClock? (cs ++ cut) = none) :
    splitClock? cs = none := by
  unfold splitClock? at h
  split at h
  · rename_i hclock
    rw [splitClock?, splitTemplate?_eq_none_of_append hclock]
  · split at h <;> cases h

/-! ## Quantities, variables and words -/

/-- A unit that ends before the cut is found without what follows. -/
theorem splitUnit_of_append {unit : List Char} (h : splitUnit (cs ++ cut) = (unit, rest ++ cut)) :
    splitUnit cs = (unit, rest) := by
  have hcs : unit ++ rest = cs := by
    have happend := splitUnit_append (cs ++ cut)
    rw [h, ← List.append_assoc] at happend
    exact List.append_cancel_right happend
  cases cs with
  | nil =>
      obtain ⟨rfl, rfl⟩ := List.append_eq_nil_iff.1 hcs
      rfl
  | cons c cs =>
      by_cases hc : isUnitLetter c = true
      · obtain ⟨rfl, -⟩ : [c] = unit ∧ cs ++ cut = rest ++ cut := by simpa [splitUnit, hc] using h
        obtain rfl : rest = cs := by simpa using hcs
        simp [splitUnit, hc]
      · obtain ⟨rfl, -⟩ : [] = unit ∧ c :: cs ++ cut = rest ++ cut := by
          simpa [splitUnit, hc] using h
        obtain rfl : rest = c :: cs := hcs
        simp [splitUnit, hc]

/-- A quantity that ends before the cut is read without what follows. -/
theorem quantity_of_followed {sign : List Char}
    (h : quantity sign (cs ++ cut) = l.followedBy cut) : quantity sign cs = l := by
  obtain ⟨kind, text, rest⟩ := l
  simp only [quantity, followedBy, Lexeme.mk.injEq] at h
  obtain ⟨hkind, htext, hrest⟩ := h
  obtain ⟨unit, hunit⟩ : ∃ unit,
      splitUnit ((cs ++ cut).dropWhile Char.isDigit) = (unit, rest ++ cut) :=
    ⟨_, Prod.ext rfl hrest⟩
  rw [hunit] at hkind htext
  have hdrop : (cs ++ cut).dropWhile Char.isDigit = unit ++ rest ++ cut := by
    rw [← splitUnit_append ((cs ++ cut).dropWhile Char.isDigit), hunit, List.append_assoc]
  obtain ⟨hdigits, hafter⟩ := span_of_append hdrop
  rw [hdrop] at hunit
  rw [← hdigits] at htext
  simp only [quantity, hafter, splitUnit_of_append hunit, hkind, htext]

/-- A sign that ends before the cut is read without what follows. -/
theorem signed_of_followed {sign : Char} (h : signed sign (cs ++ cut) = l.followedBy cut) :
    signed sign cs = l := by
  have hhead : cs.head?.any Char.isDigit = (cs ++ cut).head?.any Char.isDigit := by
    cases cs with
    | cons c cs => rfl
    | nil =>
        -- A digit behind the sign would be part of the lexeme, which ends before the cut.
        by_contra hne
        have hdigit : cut.head?.any Char.isDigit = true := by simpa using Ne.symm hne
        rw [List.nil_append, signed, if_pos hdigit, ← List.nil_append cut] at h
        obtain rfl := quantity_of_followed h
        have htext : [sign] ++ cut.takeWhile Char.isDigit ++ _ = [sign] := congrArg Lexeme.text h
        cases cut with
        | nil => cases hdigit
        | cons c cut =>
            have hc : c.isDigit = true := hdigit
            simp [hc] at htext
  rw [signed, hhead]
  unfold signed at h
  split at h
  · rename_i hdigit
    rw [if_pos hdigit]
    exact quantity_of_followed h
  · rename_i hdigit
    rw [if_neg hdigit]
    obtain ⟨kind, text, rest⟩ := l
    obtain ⟨rfl, rfl, hrest⟩ := Lexeme.mk.inj h
    rw [List.append_cancel_right hrest]
    rfl

/-- A variable that ends before the cut is read without what follows. -/
theorem varName_of_followed (h : varName (cs ++ cut) = l.followedBy cut) : varName cs = l := by
  obtain ⟨kind, text, rest⟩ := l
  obtain ⟨rfl, rfl, hrest⟩ := Lexeme.mk.inj h
  obtain ⟨hname, hafter⟩ := span_of_append hrest
  rw [varName, hname, hafter]

/-- A word that ends before the cut is read without what follows. -/
theorem word_of_followed (h : word (cs ++ cut) = l.followedBy cut) : word cs = l := by
  obtain ⟨kind, text, rest⟩ := l
  obtain ⟨rfl, rfl, hrest⟩ := Lexeme.mk.inj h
  obtain ⟨hname, hafter⟩ := span_of_append hrest
  simp only [word, hname, hafter]

/-! ## Zones -/

/-- An offset that ends before the cut is found without what follows. -/
theorem splitOffset_of_append (h : splitOffset (cs ++ cut) = .ok (front, rest ++ cut)) :
    splitOffset cs = .ok (front, rest) := by
  unfold splitOffset at h
  simp only at h
  split at h
  · rename_i htwo
    split at h
    · rename_i afterColon hcolon
      split at h
      · rename_i hminutes
        obtain ⟨rfl, hrest⟩ := Prod.mk.inj (Except.ok.inj h)
        obtain ⟨after, rfl⟩ : ∃ after, afterColon = after ++ cut := by
          refine ⟨afterColon.takeWhile Char.isDigit ++ rest, ?_⟩
          rw [List.append_assoc, ← hrest, List.takeWhile_append_dropWhile]
        rw [← List.cons_append] at hcolon
        obtain ⟨hdigits, hafter⟩ := span_of_append hcolon
        obtain ⟨hminute, hlast⟩ := span_of_append hrest
        simp [splitOffset, hdigits, hafter, htwo, hminute, hlast, hminutes]
      · cases h
    · rename_i hcolon
      obtain ⟨rfl, hrest⟩ := Prod.mk.inj (Except.ok.inj h)
      obtain ⟨hdigits, hafter⟩ := span_of_append hrest
      simp only [splitOffset, hdigits, hafter, htwo, if_true]
      split
      · exact absurd hrest (hcolon _)
      · rfl
  · rename_i htwo
    split at h
    · rename_i hfour
      obtain ⟨rfl, hrest⟩ := Prod.mk.inj (Except.ok.inj h)
      obtain ⟨hdigits, hafter⟩ := span_of_append hrest
      simp only [splitOffset, hdigits, hafter, if_neg htwo, if_pos hfour]
    · cases h

/-- A text without a zone at its beginning has none when it is cut short. -/
def NoNewZone (rest cut : List Char) : Prop :=
  splitZone (rest ++ cut) = .ok ([], rest ++ cut) → splitZone rest = .ok ([], rest)

/-- A zone that ends before the cut is found without what follows. -/
theorem splitZone_of_append (hzone : NoNewZone rest cut)
    (h : splitZone (cs ++ cut) = .ok (front, rest ++ cut)) : splitZone cs = .ok (front, rest) := by
  have hcs : front ++ rest = cs := by
    have happend := splitZone_append h
    rw [← List.append_assoc] at happend
    exact List.append_cancel_right happend
  subst hcs
  cases front with
  | nil => exact hzone h
  | cons c front =>
      by_cases hutc : c = 'Z'
      · subst hutc
        have hfront : ['Z'] = 'Z' :: front := (Prod.mk.inj (Except.ok.inj h)).1
        obtain rfl : [] = front := (List.cons.inj hfront).2
        rfl
      by_cases hspace : c = ' '
      · subst hspace
        simp only [List.cons_append, splitZone] at h ⊢
        split at h
        · rename_i hname
          obtain ⟨hfront, hrest⟩ := Prod.mk.inj (Except.ok.inj h)
          obtain ⟨hletters, hafter⟩ := span_of_append hrest
          obtain ⟨hmin, hmax, hword, hknown⟩ := hname
          have hhead : (!rest.head?.any Char.isAlphanum) = true := by
            cases rest with
            | nil => rfl
            | cons d rest => rwa [hrest] at hword
          rw [hletters, hafter, if_pos ⟨hmin, hmax, hhead, hknown⟩, hfront]
        · cases h
      by_cases hsign : c = '+' ∨ c = '-'
      · simp only [List.cons_append, splitZone, hsign, if_true] at h ⊢
        split at h
        · rename_i offset after hoffset
          obtain ⟨hfront, rfl⟩ := Prod.mk.inj (Except.ok.inj h)
          obtain rfl : offset = front := (List.cons.inj hfront).2
          rw [splitOffset_of_append hoffset]
        · cases h
      · simp [splitZone, hsign] at h

/-! ## Dates and numbers -/

/-- A date with a time that ends before the cut is read without what follows. -/
theorem isoDateTime_of_followed {dateTime : List Char} (hzone : NoNewZone l.rest cut)
    (h : isoDateTime dateTime (cs ++ cut) = .ok (l.followedBy cut)) :
    isoDateTime dateTime cs = .ok l := by
  unfold isoDateTime at h
  split at h
  · rename_i zone rest hsplit
    obtain ⟨kind, text, after⟩ := l
    obtain ⟨rfl, rfl, rfl⟩ := Lexeme.mk.inj (Except.ok.inj h)
    rw [isoDateTime, splitZone_of_append hzone hsplit]
  · cases h

/-- A time of day and a zone behind it, which end before the cut. -/
theorem clock_of_followed {clock dateTime : List Char} (hzone : NoNewZone l.rest cut)
    (hclock : splitClock? (cs ++ cut) = some (clock, rest))
    (h : isoDateTime dateTime rest = .ok (l.followedBy cut)) :
    ∃ after, splitClock? cs = some (clock, after) ∧ isoDateTime dateTime after = .ok l := by
  obtain ⟨after, rfl⟩ : ∃ after, rest = after ++ cut := by
    unfold isoDateTime at h
    split at h
    · rename_i zone rest' hsplit
      have hrest : rest' = l.rest ++ cut := congrArg Lexeme.rest (Except.ok.inj h)
      exact ⟨zone ++ l.rest, by rw [← splitZone_append hsplit, hrest, List.append_assoc]⟩
    · cases h
  exact ⟨after, splitClock?_of_append hclock, isoDateTime_of_followed hzone h⟩

/-- A date that ends before the cut is read without what follows. -/
theorem isoDate_of_followed {date : List Char} (hdate : date ≠ []) (hzone : NoNewZone l.rest cut)
    (h : isoDate date (cs ++ cut) = .ok (l.followedBy cut)) : isoDate date cs = .ok l := by
  cases cs with
  | nil =>
      -- Nothing but the date is before the cut.
      obtain ⟨clock, hclock⟩ := exists_clock_of_isoDate h
      have hkind := kind_of_isoDate h
      have happend := (isoDate_append hdate h).1
      obtain ⟨kind, text, after⟩ := l
      obtain rfl : kind = .date := hkind
      obtain rfl : text = date ++ clock.elim [] IsoClock.text := hclock
      have hnil : clock.elim [] IsoClock.text ++ after = [] := by
        have hcut : clock.elim [] IsoClock.text ++ after ++ cut = [] ++ cut := by
          simpa [followedBy, List.append_assoc] using happend
        exact List.append_cancel_right hcut
      obtain ⟨hclock, rfl⟩ := List.append_eq_nil_iff.1 hnil
      rw [hclock, List.append_nil]
      rfl
  | cons c cs =>
      by_cases htime : c = 'T'
      · subst htime
        simp only [List.cons_append, isoDate] at h ⊢
        split at h
        · rename_i clock rest hclock
          obtain ⟨after, hclock', hdateTime⟩ := clock_of_followed hzone hclock h
          simp only [hclock', hdateTime]
        · cases h
      by_cases hspace : c = ' '
      · subst hspace
        simp only [List.cons_append, isoDate] at h ⊢
        split at h
        · rename_i clock rest hclock
          obtain ⟨after, hclock', hdateTime⟩ := clock_of_followed hzone hclock h
          simp only [hclock', hdateTime]
        · rename_i hclock
          obtain ⟨kind, text, after⟩ := l
          obtain ⟨rfl, rfl, hrest⟩ := Lexeme.mk.inj (Except.ok.inj h)
          rw [← List.cons_append] at hrest
          obtain rfl := List.append_cancel_right hrest
          simp only [splitClock?_eq_none_of_append hclock]
      · have halone (after : List Char) : isoDate date (c :: after) =
            .ok { kind := .date, text := date, rest := c :: after } := by
          simp [isoDate, htime, hspace]
        rw [List.cons_append, halone] at h
        obtain ⟨kind, text, after⟩ := l
        obtain ⟨rfl, rfl, hrest⟩ := Lexeme.mk.inj (Except.ok.inj h)
        rw [← List.cons_append] at hrest
        obtain rfl := List.append_cancel_right hrest
        exact halone cs

/-- What begins with a digit and ends before the cut is read without what follows. -/
theorem numeral_of_followed (hzone : NoNewZone l.rest cut)
    (h : numeral (cs ++ cut) = .ok (l.followedBy cut)) : numeral cs = .ok l := by
  unfold numeral at h
  split at h
  · rename_i date rest hsplit
    have hdate : date ≠ [] := by
      rintro rfl
      cases splitTemplate?_length hsplit
    obtain ⟨after, rfl⟩ : ∃ after, rest = after ++ cut := by
      obtain ⟨clock, hclock⟩ := exists_clock_of_isoDate h
      have htext : l.text = date ++ clock.elim [] IsoClock.text := hclock
      have happend : l.text ++ (l.rest ++ cut) = date ++ rest := (isoDate_append hdate h).1
      rw [htext, List.append_assoc] at happend
      exact ⟨_ ++ l.rest, by rw [← List.append_cancel_left happend, List.append_assoc]⟩
    rw [numeral, splitTemplate?_of_append hsplit]
    exact isoDate_of_followed hdate hzone h
  · rename_i hdate
    rw [numeral, splitTemplate?_eq_none_of_append hdate]
    split at h
    · rename_i clock rest hclock
      obtain ⟨kind, text, after⟩ := l
      obtain ⟨rfl, rfl, rfl⟩ := Lexeme.mk.inj (Except.ok.inj h)
      simp only [splitClock?_of_append hclock]
    · rename_i hclock
      simp only [splitClock?_eq_none_of_append hclock]
      exact congrArg Except.ok (quantity_of_followed (Except.ok.inj h))

/-! ## Any lexeme -/

/-- A lexeme is read as before when the text behind it is cut short. -/
theorem read_of_followed {c : Char} (hzone : NoNewZone l.rest cut)
    (h : read c (cs ++ cut) = .ok (l.followedBy cut)) : read c cs = .ok l := by
  have hsingle {kind : TokenKind} (h : single kind c (cs ++ cut) = l.followedBy cut) :
      single kind c cs = l := by
    obtain ⟨kind, text, rest⟩ := l
    obtain ⟨rfl, rfl, hrest⟩ := Lexeme.mk.inj h
    rw [List.append_cancel_right hrest]
    rfl
  unfold read at h ⊢
  split_ifs at h ⊢ with hpipe hcomma hopen hclose hsign hdollar hdot hdigit halpha
  · exact congrArg Except.ok (hsingle (Except.ok.inj h))
  · exact congrArg Except.ok (hsingle (Except.ok.inj h))
  · exact congrArg Except.ok (hsingle (Except.ok.inj h))
  · exact congrArg Except.ok (hsingle (Except.ok.inj h))
  · exact congrArg Except.ok (signed_of_followed (Except.ok.inj h))
  · exact congrArg Except.ok (varName_of_followed (Except.ok.inj h))
  · split at h
    · rename_i after hdots
      obtain ⟨kind, text, rest⟩ := l
      obtain ⟨rfl, rfl, rfl⟩ := Lexeme.mk.inj (Except.ok.inj h)
      rw [← List.cons_append, ← List.cons_append] at hdots
      obtain rfl := List.append_cancel_right hdots
      rfl
    · cases h
  · exact numeral_of_followed hzone h
  · rw [← List.cons_append] at h
    exact congrArg Except.ok (word_of_followed (Except.ok.inj h))

end Lexeme

end Almanac
