import Almanac.Proofs.Token.Characters
import Almanac.Proofs.Token.Truncation

/-!
# Texts that cannot be cut into tokens

A text that cannot be cut into tokens is cut as far as it can be: the error is at the first
character with which no token goes on, and the text before it is cut into tokens by itself.  What
an error shows stands in the text where it says.

All that is scanned up to an error, and all of a text without one, consists of characters of one
byte.  So whatever part of it is taken, from one byte to another, is a text.

Main definitions:

- `CutsWord`: a text that is cut within a word.
- `LexFlaw.Begins`: what a flaw says about the text from its place on.
- `scanned`: the bytes that have been looked at when the scan of a text ends.

Main results:

- Theorem `noNewZone_of_not_cutsWord`: a text that is cut short between two words gets no zone.
- Theorem `exists_flaw_of_tokensFrom`: the text before an error is cut into tokens.
- Theorem `LexFlaw.begins_of_read`: what each flaw is about.
- Theorem `exists_scanned`: what has been looked at has one byte for each character.
- Theorem `tokenize_error_pointsInto`: where a text cannot be cut into tokens, and why.
-/

namespace Almanac

open Text

variable {cs cut rest front : List Char} {c : Char} {flaw : LexFlaw} {pos : Nat} {e : LexError}

/-! ## Cutting between two words -/

/-- A text is cut within a word: there are letters before the cut, with nothing but blanks before
them, and a letter or a digit after it. -/
structure CutsWord (cs cut : List Char) : Prop where
  ne_nil : cs.dropWhile isAsciiBlank ≠ []
  letters : ∀ c ∈ cs.dropWhile isAsciiBlank, c.isAlpha = true
  goesOn : cut.head?.any Char.isAlphanum = true

/-- Letters are letters or digits. -/
theorem isAlphanum_of_isAlpha (h : c.isAlpha = true) : c.isAlphanum = true := by
  simp [Char.isAlphanum, h]

theorem head_isAlpha_of_isAlphanum (h : cs.head?.any Char.isAlphanum = false) :
    cs.head?.any Char.isAlpha = false := by
  cases cs with
  | nil => rfl
  | cons c cs =>
      have hc : c.isAlphanum = false := h
      exact Bool.eq_false_iff.2 fun halpha => by simp [isAlphanum_of_isAlpha halpha] at hc

/-- A letter does not separate tokens. -/
theorem not_isAsciiBlank_of_isAlpha (h : c.isAlpha = true) : isAsciiBlank c = false :=
  (Lexeme.read_of_isAlpha h []).1

/-- A cut that does not divide a word gives a date no new zone. -/
theorem noNewZone_of_not_cutsWord (h : ¬ CutsWord rest cut) : Lexeme.NoNewZone rest cut := by
  intro hlonger
  cases rest with
  | nil => rfl
  | cons c after =>
      by_cases hspace : c = ' '
      · subst hspace
        simp only [List.cons_append, Lexeme.splitZone] at hlonger ⊢
        split
        · rename_i hname
          obtain ⟨hmin, hmax, hword, hknown⟩ := hname
          have hletters : ∀ c ∈ after.takeWhile Char.isAlpha, c.isAlpha = true :=
            fun c hc => List.mem_takeWhile_imp hc
          have hafter := List.takeWhile_append_dropWhile (p := Char.isAlpha) (l := after)
          generalize after.takeWhile Char.isAlpha = name at *
          generalize after.dropWhile Char.isAlpha = tail at *
          subst hafter
          have hhead : (tail ++ cut).head?.any Char.isAlphanum = false := by
            cases tail with
            | cons d tail => simpa using hword
            | nil =>
                by_contra hcut
                have hne : name ≠ [] := by
                  rintro rfl
                  exact absurd hmin (by decide)
                have hblank : name.head?.any isAsciiBlank = false := by
                  cases name with
                  | nil => rfl
                  | cons c name =>
                      exact not_isAsciiBlank_of_isAlpha (hletters c (List.mem_cons_self ..))
                have hspace : ∀ c ∈ [' '], isAsciiBlank c = true := List.forall_mem_singleton.2 rfl
                have hdrop : (' ' :: (name ++ [])).dropWhile isAsciiBlank = name := by
                  rw [List.append_nil]
                  exact dropWhile_append_of_head hspace hblank
                exact h ⟨hdrop.symm ▸ hne, hdrop.symm ▸ hletters, by simpa using hcut⟩
          have halpha := head_isAlpha_of_isAlphanum hhead
          rw [List.append_assoc, takeWhile_append_of_head hletters halpha,
            dropWhile_append_of_head hletters halpha, hhead, if_pos ⟨hmin, hmax, rfl, hknown⟩]
            at hlonger
          cases hlonger
        · rfl
      by_cases hutc : c = 'Z'
      · subst hutc
        cases hlonger
      by_cases hsign : c = '+' ∨ c = '-'
      · simp only [List.cons_append, Lexeme.splitZone, hsign, if_true] at hlonger
        split at hlonger <;> cases hlonger
      · simp [Lexeme.splitZone, hsign]

/-- No text is cut within a word where a lexeme ends, or later: a word goes on as far as there are
letters and digits. -/
theorem not_cutsWord_of_read {gap text : List Char} {l : Lexeme}
    (hgap : ∀ c ∈ gap, isAsciiBlank c = true) (hc : isAsciiBlank c = false)
    (hread : Lexeme.read c (text ++ (front ++ cut)) = .ok l) (hl : l.rest = front ++ cut) :
    ¬ CutsWord (gap ++ c :: (text ++ front)) cut := by
  rintro ⟨-, hletters, hgoesOn⟩
  have hhead : (c :: (text ++ front)).head?.any isAsciiBlank = false := hc
  rw [dropWhile_append_of_head hgap hhead] at hletters
  have hword := (Lexeme.read_of_isAlpha (hletters c (List.mem_cons_self ..))
    (text ++ (front ++ cut))).2
  rw [hread] at hword
  have hrest : l.rest = cut.dropWhile Char.isAlphanum := by
    rw [Except.ok.inj hword, Lexeme.word, ← List.append_assoc, ← List.cons_append]
    exact List.dropWhile_append_of_pos fun d hd => isAlphanum_of_isAlpha (hletters d hd)
  rw [hl] at hrest
  cases cut with
  | nil => cases hgoesOn
  | cons d cut =>
      have hd : d.isAlphanum = true := hgoesOn
      rw [List.dropWhile_cons_of_pos hd] at hrest
      have hlength := congrArg List.length hrest
      have hle := (List.dropWhile_sublist Char.isAlphanum (l := cut)).length_le
      simp only [List.length_append, List.length_cons] at hlength
      omega

/-! ## Before an error -/

/-- Where a text cannot be cut into tokens, a lexeme cannot be read.  The text before it can be cut
into tokens, and it ends between two words. -/
theorem exists_flaw_of_tokensFrom (h : tokensFrom pos cs = .error e) :
    ∃ before c rest, cs = before ++ c :: rest ∧ e.pos = pos + byteLength before ∧
      isAsciiBlank c = false ∧ Lexeme.read c rest = .error e.flaw ∧
      (∃ tokens, tokensFrom pos before = .ok tokens) ∧ ¬ CutsWord before (c :: rest) := by
  induction pos, cs using induction_of_lexemes with
  | blanks pos gap hgap =>
      rw [tokensFrom_of_blanks pos hgap] at h
      cases h
  | flaw pos gap c rest flaw hgap hc hread =>
      rw [tokensFrom_of_flaw pos hgap hc hread] at h
      cases h
      refine ⟨gap, c, rest, rfl, rfl, hc, hread, ⟨_, tokensFrom_of_blanks pos hgap⟩, ?_⟩
      intro hcuts
      exact hcuts.ne_nil (List.dropWhile_eq_nil_iff.2 hgap)
  | lexeme pos gap c after l hgap hc hread ih =>
      have htail : tokensFrom (pos + byteLength gap + byteLength l.text) l.rest = .error e := by
        rw [tokensFrom_of_lexeme pos hgap hc hread] at h
        cases htail : tokensFrom (pos + byteLength gap + byteLength l.text) l.rest with
        | ok tail =>
            rw [htail] at h
            cases h
        | error error =>
            rw [htail] at h
            exact h
      obtain ⟨before, d, rest, hl, hpos, hd, hflaw, ⟨tokens, htokens⟩, hcuts⟩ := ih htail
      obtain ⟨happend, hne⟩ := Lexeme.read_append hread
      obtain ⟨first, text, htext⟩ := List.exists_cons_of_ne_nil hne
      rw [htext, hl, List.cons_append] at happend
      obtain ⟨rfl, rfl⟩ := List.cons.inj happend
      -- The lexeme is read again from the text before the error.
      have hread' : Lexeme.read first (text ++ before) = .ok { l with rest := before } := by
        refine Lexeme.read_of_followed (noNewZone_of_not_cutsWord hcuts) ?_
        rw [List.append_assoc, hread, Lexeme.followedBy, ← hl]
      refine ⟨gap ++ first :: (text ++ before), d, rest, by simp, ?_, hd, hflaw, ?_, ?_⟩
      · rw [hpos, byteLength_append, ← List.cons_append, ← htext, byteLength_append]
        omega
      · rw [tokensFrom_of_lexeme pos hgap hc hread', htokens]
        exact ⟨_, rfl⟩
      · exact not_cutsWord_of_read hgap hc hread hl

/-! ## What flaws show -/

/-- A text that an error shows: it stands at the beginning of another one, and its characters are
those of tokens. -/
structure ShownOf (shown cs : List Char) : Prop where
  isPrefix : shown <+: cs
  forall_isInner : ∀ c ∈ shown, isInner c = true

/-- The empty text can be shown of any other. -/
theorem ShownOf.nil : ShownOf [] cs :=
  ⟨List.nil_prefix, fun _ hc => by cases hc⟩

/-- What is shown can have more of the text before it. -/
theorem ShownOf.append {shown : List Char} (hfront : ∀ c ∈ front, isInner c = true)
    (h : ShownOf shown cs) : ShownOf (front ++ shown) (front ++ cs) where
  isPrefix := (List.prefix_append_right_inj front).2 h.isPrefix
  forall_isInner := List.forall_mem_append.2 ⟨hfront, h.forall_isInner⟩

/-- Digits are shown up to the first other character. -/
theorem shownOf_takeWhile_isDigit (cs : List Char) : ShownOf (cs.takeWhile Char.isDigit) cs where
  isPrefix := List.takeWhile_prefix _
  forall_isInner := fun _ hc => isInner_of_isDigit (List.mem_takeWhile_imp hc)

theorem ShownOf.cons {shown : List Char} (hc : isInner c = true) (h : ShownOf shown cs) :
    ShownOf (c :: shown) (c :: cs) :=
  h.append (List.forall_mem_singleton.2 hc)

namespace Lexeme

/-- Of an offset that is malformed its beginning is shown. -/
theorem shownOf_of_splitOffset {shown : List Char} (h : splitOffset cs = .error shown) :
    ShownOf shown cs := by
  have hdigits := shownOf_takeWhile_isDigit cs
  unfold splitOffset at h
  simp only at h
  split at h
  · split at h
    · rename_i afterColon hcolon
      split at h
      · cases h
      · cases h
        have hminutes := (shownOf_takeWhile_isDigit afterColon).cons (c := ':') rfl
        rw [← hcolon] at hminutes
        have hboth := hminutes.append hdigits.forall_isInner
        rwa [List.takeWhile_append_dropWhile] at hboth
    · cases h
  · split at h
    · cases h
    · cases h
      exact hdigits

/-- Of a zone that is malformed its beginning is shown. -/
theorem shownOf_of_splitZone {shown : List Char} (h : splitZone cs = .error shown) :
    ShownOf shown cs := by
  unfold splitZone at h
  split at h
  · cases h
  · simp only at h
    split at h <;> cases h
  · rename_i sign after _ _
    split at h
    · rename_i hsign
      split at h
      · cases h
      · rename_i offset hoffset
        cases h
        exact (shownOf_of_splitOffset hoffset).cons (IsSign.isInner hsign)
    · cases h
  · cases h

/-- Of a literal with a malformed zone, all is shown up to where the zone goes wrong. -/
theorem shownOf_of_isoDateTime {dateTime : List Char}
    (hdateTime : ∀ c ∈ dateTime, isInner c = true) (h : isoDateTime dateTime cs = .error flaw) :
    ∃ shown, flaw = .malformedIsoDate (String.ofList (dateTime ++ shown)) ∧
      ShownOf (dateTime ++ shown) (dateTime ++ cs) := by
  unfold isoDateTime at h
  split at h
  · cases h
  · rename_i shown hshown
    cases h
    exact ⟨shown, rfl, (shownOf_of_splitZone hshown).append hdateTime⟩

/-- What is shown of a date that goes on as no date does is more than the date. -/
theorem shownOf_of_isoDate {date : List Char} (hdate : ∀ c ∈ date, isInner c = true)
    (h : isoDate date cs = .error flaw) :
    ∃ c shown, flaw = .malformedIsoDate (String.ofList (date ++ c :: shown)) ∧
      ShownOf (date ++ c :: shown) (date ++ cs) := by
  have hclock {c : Char} {after clock rest : List Char} (hc : isInner c = true)
      (hclock : splitClock? after = some (clock, rest))
      (h : isoDateTime (date ++ c :: clock) rest = .error flaw) :
      ∃ shown, flaw = .malformedIsoDate (String.ofList (date ++ c :: shown)) ∧
        ShownOf (date ++ c :: shown) (date ++ c :: after) := by
    obtain ⟨t, rfl⟩ := exists_isoTime_of_splitClock? hclock
    have hdateTime := List.forall_mem_append.2 ⟨hdate, List.forall_mem_cons.2 ⟨hc, t.isInner_text⟩⟩
    obtain ⟨shown, rfl, hshown⟩ := shownOf_of_isoDateTime hdateTime h
    rw [List.append_assoc, List.cons_append] at hshown ⊢
    rw [List.append_assoc, List.cons_append, (splitClock?_append hclock).1] at hshown
    exact ⟨_, rfl, hshown⟩
  unfold isoDate at h
  split at h
  · split at h
    · rename_i clock rest hsplit
      exact ⟨'T', hclock rfl hsplit h⟩
    · cases h
      exact ⟨'T', [], rfl, (ShownOf.nil.cons rfl).append hdate⟩
  · split at h
    · rename_i clock rest hsplit
      exact ⟨' ', hclock rfl hsplit h⟩
    · cases h
  · cases h

/-- What begins with a digit fails only as a literal whose zone goes wrong. -/
theorem shownOf_of_numeral (h : numeral cs = .error flaw) :
    ∃ date c shown, flaw = .malformedIsoDate (String.ofList (date ++ c :: shown)) ∧
      Fits isoDateTemplate date ∧ ShownOf (date ++ c :: shown) cs := by
  unfold numeral at h
  split at h
  · rename_i date rest hsplit
    obtain ⟨hfits, rfl⟩ := splitTemplate?_eq_some_iff.1 hsplit
    have hdate : ∀ c ∈ date, isInner c = true := by
      obtain ⟨year, month, day, rfl⟩ := fits_isoDateTemplate_iff.1 hfits
      exact IsoDate.isInner_dayText ⟨year, month, day, none⟩
    obtain ⟨c, shown, hflaw, hshown⟩ := shownOf_of_isoDate hdate h
    exact ⟨date, c, shown, hflaw, hfits, hshown⟩
  · split at h <;> cases h

end Lexeme

/-- What a flaw says about the text from its place on: no token begins with a character that is
not expected, and what is shown of a date is the date itself and more. -/
def LexFlaw.Begins (rest : List Char) : LexFlaw → Prop
  | .unexpectedCharacter c => rest.head? = some c ∧
      ∀ after, tokenize (String.ofList (c :: after)) = .error ⟨.unexpectedCharacter c, 0⟩
  | .malformedRange => ['.'] <+: rest ∧ ¬ ['.', '.', '.'] <+: rest
  | .malformedIsoDate text => (∃ date, Fits isoDateTemplate date ∧ date <+: rest) ∧
      text.toList <+: rest ∧ 11 ≤ text.utf8ByteSize

/-- The bytes of the text that a flaw shows. -/
def LexFlaw.shownBytes : LexFlaw → Nat
  | .malformedIsoDate text => text.utf8ByteSize
  | _ => 0

/-- What each flaw is about. -/
theorem LexFlaw.begins_of_read (hc : isAsciiBlank c = false)
    (h : Lexeme.read c rest = .error flaw) : flaw.Begins (c :: rest) := by
  unfold Lexeme.read at h
  split_ifs at h with hpipe hcomma hopen hclose hsign hdollar hdot hdigit halpha
  · subst hdot
    split at h
    · cases h
    · rename_i hdots
      cases h
      refine ⟨List.prefix_append ['.'] rest, ?_⟩
      rintro ⟨after, hafter⟩
      exact hdots after (List.cons.inj hafter).2.symm
  · obtain ⟨date, d, shown, rfl, hfits, hshown⟩ := Lexeme.shownOf_of_numeral h
    have hlength : (date ++ d :: shown).length = byteLength (date ++ d :: shown) := by
      refine (byteLength_eq_length fun c hc => utf8Size_of_isScanned ?_).symm
      simp [isScanned, hshown.forall_isInner c hc]
    have hten : date.length = 10 := by
      have hfitsLength := hfits.length_eq
      exact hfitsLength.symm
    refine ⟨⟨date, hfits, (List.prefix_append ..).trans hshown.isPrefix⟩, ?_, ?_⟩
    · rw [String.toList_ofList]
      exact hshown.isPrefix
    · rw [← byteLength_toList, String.toList_ofList, ← hlength, List.length_append,
        List.length_cons, hten]
      omega
  · cases h
    refine ⟨rfl, fun after => ?_⟩
    rw [tokenize, String.toList_ofList]
    refine tokensFrom_of_read_error 0 hc ?_
    unfold Lexeme.read
    rw [if_neg hpipe, if_neg hcomma, if_neg hopen, if_neg hclose, if_neg hsign,
      if_neg hdollar, if_neg hdot, if_neg hdigit, if_neg halpha]

/-- What a flaw shows stands at its place. -/
theorem LexFlaw.exists_shownOf (h : Lexeme.read c rest = .error flaw) :
    ∃ shown, ShownOf shown (c :: rest) ∧ byteLength shown = flaw.shownBytes := by
  unfold Lexeme.read at h
  split_ifs at h
  · split at h <;> cases h
    exact ⟨[], ShownOf.nil, rfl⟩
  · obtain ⟨date, d, shown, rfl, -, hshown⟩ := Lexeme.shownOf_of_numeral h
    exact ⟨_, hshown, by rw [shownBytes, ← byteLength_toList, String.toList_ofList]⟩
  · cases h
    exact ⟨[], ShownOf.nil, rfl⟩

/-! ## Where a text cannot be cut into tokens -/

/-- An error points at the first character with which no token goes on.  The text before it is cut
into tokens, and the text from there on has the flaw that the error names.  Letters that begin
before it end before it: the name that is looked at after a date, and left to the next token if it
is no zone, is not the place of the error. -/
structure LexError.PointsInto (source : String) (e : LexError) : Prop where
  place : ∃ before rest : String, source = before ++ rest ∧ before.utf8ByteSize = e.pos ∧
    (∃ tokens, tokenize before = .ok tokens) ∧ e.flaw.Begins rest.toList
  letters : ∀ before name after : String, source = before ++ name ++ after →
    (∀ c ∈ name.toList, c.isAlpha = true) → before.utf8ByteSize ≤ e.pos →
      (before ++ name).utf8ByteSize ≤ e.pos

/-- The bytes that have been looked at when the scan of a text ends: all of them, or those before
the error and those that it shows. -/
def scanned (source : String) : Nat :=
  match tokenize source with
  | .ok _ => source.utf8ByteSize
  | .error e => e.pos + e.flaw.shownBytes

/-- A run of letters does not go on over another character. -/
theorem byteLength_le_of_letters {before name after : List Char}
    (h : before ++ name ++ after = front ++ c :: rest) (hname : ∀ c ∈ name, c.isAlpha = true)
    (hc : c.isAlpha = false) (hbefore : byteLength before ≤ byteLength front) :
    byteLength (before ++ name) ≤ byteLength front := by
  rcases exists_of_append_eq_append_cons h with ⟨inner, hinner⟩ | ⟨inner, rfl, -⟩
  · rcases exists_of_append_eq_append_cons hinner with ⟨later, rfl⟩ | ⟨later, -, rfl⟩
    · have hpos := byteLength_pos (List.cons_ne_nil c later)
      rw [byteLength_append] at hbefore
      omega
    · have halpha := hname c (List.mem_append_right later (List.mem_cons_self ..))
      rw [hc] at halpha
      cases halpha
  · rw [byteLength_append _ inner]
    omega

/-- What begins with a letter is always read. -/
theorem not_isAlpha_of_read_error (h : Lexeme.read c rest = .error flaw) : c.isAlpha = false := by
  by_contra hc
  have hword := (Lexeme.read_of_isAlpha (Bool.eq_true_of_not_eq_false hc) rest).2
  rw [h] at hword
  cases hword

/-- Every error of the tokenizer names its place in the source. -/
theorem LexError.pointsInto_of_tokenize {source : String} (h : tokenize source = .error e) :
    e.PointsInto source := by
  obtain ⟨front, c, rest, hsource, hpos, hblank, hread, ⟨tokens, htokens⟩, -⟩ :=
    exists_flaw_of_tokensFrom h
  rw [Nat.zero_add] at hpos
  constructor
  case place =>
    refine ⟨String.ofList front, String.ofList (c :: rest), ?_, ?_, ?_, ?_⟩
    · apply String.toList_inj.1
      simp [hsource]
    · rw [hpos, ← byteLength_toList, String.toList_ofList]
    · exact ⟨tokens, by rw [tokenize, String.toList_ofList, htokens]⟩
    · rw [String.toList_ofList]
      exact LexFlaw.begins_of_read hblank hread
  case letters =>
    intro before name after hwhole hname hle
    have hcs : before.toList ++ name.toList ++ after.toList = front ++ c :: rest := by
      rw [← hsource, hwhole, String.toList_append, String.toList_append]
    rw [← byteLength_toList, hpos] at hle ⊢
    rw [String.toList_append]
    exact byteLength_le_of_letters hcs hname (not_isAlpha_of_read_error hread) hle

/-- What has been looked at is the beginning of the text, and each of its characters is a byte. -/
theorem exists_scanned (source : String) :
    ∃ front rest, source.toList = front ++ rest ∧ byteLength front = scanned source ∧
      ∀ c ∈ front, c.utf8Size = 1 := by
  have hone {pos : Nat} {cs : List Char} {tokens : List Token}
      (h : tokensFrom pos cs = .ok tokens) : ∀ c ∈ cs, c.utf8Size = 1 :=
    fun c hc => utf8Size_of_isScanned ((layout_of_tokensFrom h).forall_isScanned c hc)
  unfold scanned
  split
  · rename_i tokens h
    exact ⟨source.toList, [], (List.append_nil _).symm, byteLength_toList source, hone h⟩
  · rename_i e h
    obtain ⟨before, c, rest, hsource, hpos, hblank, hread, ⟨tokens, htokens⟩, -⟩ :=
      exists_flaw_of_tokensFrom h
    obtain ⟨shown, ⟨⟨after, hafter⟩, hshown⟩, hbytes⟩ := LexFlaw.exists_shownOf hread
    refine ⟨before ++ shown, after, ?_, ?_, ?_⟩
    · rw [hsource, List.append_assoc, hafter]
    · rw [byteLength_append, hbytes, hpos, Nat.zero_add]
    · exact List.forall_mem_append.2 ⟨hone htokens, fun c hc =>
        utf8Size_of_isScanned (by simp [isScanned, hshown c hc])⟩

/-- An error of the tokenizer points at the first character with which no token goes on.  Of what
has been scanned, the part from any byte to any other is a text. -/
theorem tokenize_error_pointsInto (source : String) :
    (∀ e, tokenize source = .error e → e.PointsInto source) ∧
      ∀ start stop, start ≤ stop → stop ≤ scanned source →
        ∃ before text after : String, source = before ++ text ++ after ∧
          before.utf8ByteSize = start ∧ text.utf8ByteSize = stop - start := by
  refine ⟨fun e h => LexError.pointsInto_of_tokenize h, fun start stop hle hstop => ?_⟩
  obtain ⟨front, rest, hsource, hbytes, hone⟩ := exists_scanned source
  exact exists_slice hsource hone hle (hbytes ▸ hstop)

/-- A date with a name after it that is no zone, and a date with a sign for money after its `T`. -/
theorem tokenize_error_pointsInto_euro :
    tokenize "2024-01-15 10:30 abc 2024-02-30T€" =
        .error ⟨.malformedIsoDate "2024-02-30T", 21⟩ ∧
      LexError.PointsInto "2024-01-15 10:30 abc 2024-02-30T€"
        ⟨.malformedIsoDate "2024-02-30T", 21⟩ ∧
      ∃ before text after : String,
        "2024-01-15 10:30 abc 2024-02-30T€" = before ++ text ++ after ∧
          before.utf8ByteSize = 17 ∧ text.utf8ByteSize = 32 - 17 := by
  have hfails : tokenize "2024-01-15 10:30 abc 2024-02-30T€" =
      .error ⟨.malformedIsoDate "2024-02-30T", 21⟩ := by decide +kernel
  have hscanned : 32 ≤ scanned "2024-01-15 10:30 abc 2024-02-30T€" := by
    rw [scanned, hfails]
    decide +kernel
  obtain ⟨hpoints, hslice⟩ := tokenize_error_pointsInto "2024-01-15 10:30 abc 2024-02-30T€"
  exact ⟨hfails, hpoints _ hfails, hslice 17 32 (by decide) hscanned⟩

end Almanac
