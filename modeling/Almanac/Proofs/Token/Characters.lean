import Almanac.Proofs.Token.Layout

/-!
# The characters of tokens

A comma is a token by itself, and no other token has one.  All other tokens consist of ASCII
letters and digits and a few signs.  So a text that is cut into tokens has one byte for each
character, and its blanks are the blanks between tokens and the spaces within dates.

Main definitions:

- `isInner`: the characters of tokens other than a comma.

Main results:

- Theorem `Shape.forall_isInner`: what a word other than a comma consists of.
- Theorem `Layout.forall_isScanned`: what a text that is cut into tokens consists of.
- Theorem `exists_slice`: what a text of ASCII characters has from one byte to another.
-/

namespace Almanac

open Text

variable {cs text : List Char} {kind : TokenKind} {tokens : List Token} {c : Char} {pos : Nat}

/-! ## Characters one by one -/

/-- The characters of tokens other than a comma. -/
def isInner (c : Char) : Bool :=
  c.isAlphanum || ['|', '(', ')', '+', '-', '$', '.', ':', ' '].contains c

/-- The characters of a text that is cut into tokens. -/
def isScanned (c : Char) : Bool :=
  isInner c || c == ',' || isAsciiBlank c

/-- Letters and digits can stand within a token. -/
theorem isInner_of_isAlphanum (h : c.isAlphanum = true) : isInner c = true := by
  simp [isInner, h]

theorem isInner_of_isDigit (h : c.isDigit = true) : isInner c = true :=
  isInner_of_isAlphanum (by simp [Char.isAlphanum, h])

theorem isInner_of_isAlpha (h : c.isAlpha = true) : isInner c = true :=
  isInner_of_isAlphanum (by simp [Char.isAlphanum, h])

/-- Signs can stand within a token. -/
theorem IsSign.isInner (h : IsSign c) : isInner c = true := by
  rcases h with rfl | rfl <;> rfl

/-- Letters and digits have numbers below 128 that no blank has. -/
theorem bounds_of_isAlphanum (h : c.isAlphanum = true) :
    (65 ≤ c.toNat ∧ c.toNat ≤ 90 ∨ 97 ≤ c.toNat ∧ c.toNat ≤ 122) ∨
      48 ≤ c.toNat ∧ c.toNat ≤ 57 := by
  simpa [Char.isAlphanum, Char.isAlpha, Char.isUpper, Char.isLower, Char.isDigit,
    UInt32.le_iff_toNat_le] using h

/-- The characters of tokens and between them that are neither letters nor digits. -/
def scannedSigns : List Char :=
  ['|', '(', ')', '+', '-', '$', '.', ':', ' ', ',', '\t', '\n', '\x0c', '\r']

/-- A character that is scanned is a letter, a digit or one of a few signs and blanks. -/
theorem isAlphanum_or_mem_of_isScanned (h : isScanned c = true) :
    c.isAlphanum = true ∨ c ∈ scannedSigns := by
  simp only [isScanned, isInner, isAsciiBlank, scannedSigns, Bool.or_eq_true,
    List.contains_iff_mem, beq_iff_eq, List.mem_cons, List.not_mem_nil, or_false] at h ⊢
  tauto

/-- Every character that is scanned takes one byte. -/
theorem utf8Size_of_isScanned (h : isScanned c = true) : c.utf8Size = 1 := by
  rcases isAlphanum_or_mem_of_isScanned h with halnum | hmem
  · have hbounds := bounds_of_isAlphanum halnum
    rw [Char.utf8Size_eq_one_iff, UInt32.le_iff_toNat_le]
    have hle : c.toNat ≤ 127 := by omega
    exact hle
  · have hsigns : scannedSigns.all (fun d => d.utf8Size == 1) = true := rfl
    exact eq_of_beq (List.all_eq_true.1 hsigns c hmem)

/-- The blanks among the characters that are scanned are those between tokens. -/
theorem isAsciiBlank_of_isScanned (h : isScanned c = true) (hblank : isBlank c = true) :
    isAsciiBlank c = true := by
  rcases isAlphanum_or_mem_of_isScanned h with halnum | hmem
  · have hbounds := bounds_of_isAlphanum halnum
    simp [isBlank] at hblank
    omega
  · have hsigns : scannedSigns.all (fun d => !isBlank d || isAsciiBlank d) = true := rfl
    simpa [hblank] using List.all_eq_true.1 hsigns c hmem

/-! ## The texts of words -/

/-- Fields of fixed width can stand within a token. -/
theorem isInner_fixedDigits (width n : Nat) : ∀ c ∈ fixedDigits width n, isInner c = true :=
  fun c hc => isInner_of_isDigit (isDigit_fixedDigits width n c hc)

/-- Times can stand within a token. -/
theorem IsoTime.isInner_text (t : IsoTime) : ∀ c ∈ t.text, isInner c = true := by
  have hcolon (n : Nat) : ∀ c ∈ ':' :: fixedDigits 2 n, isInner c = true :=
    List.forall_mem_cons.2 ⟨rfl, isInner_fixedDigits 2 n⟩
  have hclock := List.forall_mem_append.2 ⟨isInner_fixedDigits 2 t.hour, hcolon t.minute⟩
  rw [IsoTime.text]
  cases t.second with
  | none => simpa using hclock
  | some second => exact List.forall_mem_append.2 ⟨hclock, hcolon second⟩

/-- Zones can stand within a token. -/
theorem IsoZone.isInner_text (z : IsoZone) : ∀ c ∈ z.text, isInner c = true := by
  have hsign (negative : Bool) : isInner (IsoZone.sign negative) = true := by
    cases negative <;> rfl
  cases z with
  | utc => exact List.forall_mem_singleton.2 rfl
  | hours negative hour =>
      exact List.forall_mem_cons.2 ⟨hsign negative, isInner_fixedDigits 2 hour⟩
  | hoursMinutes negative colon hour minute =>
      have hhour := isInner_fixedDigits 2 hour.val
      have hminute := isInner_fixedDigits 2 minute.val
      cases colon with
      | true =>
          exact List.forall_mem_cons.2 ⟨hsign negative,
            List.forall_mem_append.2 ⟨hhour, List.forall_mem_cons.2 ⟨rfl, hminute⟩⟩⟩
      | false =>
          exact List.forall_mem_cons.2 ⟨hsign negative, List.forall_mem_append.2 ⟨hhour, hminute⟩⟩
  | named name offset known =>
      obtain ⟨hletters, -, -⟩ := Zone.name_bounds known
      exact List.forall_mem_cons.2 ⟨rfl, fun c hc => isInner_of_isAlpha (hletters c hc)⟩

/-- Days can stand within a token. -/
theorem IsoDate.isInner_dayText (d : IsoDate) : ∀ c ∈ d.dayText, isInner c = true := by
  have hdash (n : Nat) : ∀ c ∈ '-' :: fixedDigits 2 n, isInner c = true :=
    List.forall_mem_cons.2 ⟨rfl, isInner_fixedDigits 2 n⟩
  exact List.forall_mem_append.2
    ⟨List.forall_mem_append.2 ⟨isInner_fixedDigits 4 d.year, hdash d.month⟩, hdash d.day⟩

/-- A literal is written with characters from within tokens, its one space included. -/
theorem IsoDate.isInner_text (d : IsoDate) : ∀ c ∈ d.text, isInner c = true := by
  rw [IsoDate.text, IsoDate.clockText]
  refine List.forall_mem_append.2 ⟨d.isInner_dayText, ?_⟩
  cases d.clock with
  | none => exact fun c hc => by cases hc
  | some clock =>
      have hseparator : isInner clock.separator = true := by
        rw [IsoClock.separator]
        split <;> rfl
      refine List.forall_mem_cons.2 ⟨hseparator,
        List.forall_mem_append.2 ⟨clock.time.isInner_text, ?_⟩⟩
      rw [IsoClock.zoneText]
      cases clock.zone with
      | none => exact fun c hc => by cases hc
      | some z => exact z.isInner_text

/-- The text of a comma is a comma. -/
theorem Shape.eq_comma (h : Shape .comma text) : text = [','] := by
  cases h
  rfl

/-- The characters of a word that is not a comma. -/
theorem Shape.forall_isInner (h : Shape kind text) (hkind : kind ≠ .comma) :
    ∀ c ∈ text, isInner c = true := by
  have hnumber {digits : List Char} (h : IsNumber digits) : ∀ c ∈ digits, isInner c = true :=
    fun c hc => isInner_of_isDigit (h.isDigit c hc)
  have hletter {letter : Char} (h : isUnitLetter letter = true) : isInner letter = true := by
    have hletters : ['d', 'w', 'M', 'Y', 'h', 'm', 's', 'q'].all isInner = true := rfl
    exact List.all_eq_true.1 hletters letter (List.contains_iff_mem.1 h)
  have hname {text : List Char} (h : IsName text) : ∀ c ∈ text, isInner c = true := by
    obtain ⟨c, name, rfl, hc, hname⟩ := h
    exact List.forall_mem_cons.2
      ⟨isInner_of_isAlpha hc, fun d hd => isInner_of_isAlphanum (hname d hd)⟩
  cases h with
  | comma => exact absurd rfl hkind
  | pipe => exact List.all_eq_true.1 rfl
  | lparen => exact List.all_eq_true.1 rfl
  | rparen => exact List.all_eq_true.1 rfl
  | range => exact List.all_eq_true.1 rfl
  | operator hsign => exact List.forall_mem_singleton.2 hsign.isInner
  | number hdigits => exact hnumber hdigits
  | unsigned hdigits hunit =>
      exact List.forall_mem_append.2
        ⟨hnumber hdigits, List.forall_mem_singleton.2 (hletter hunit)⟩
  | signed hsign hdigits hunit =>
      refine List.forall_mem_cons.2
        ⟨hsign.isInner, List.forall_mem_append.2 ⟨hnumber hdigits, ?_⟩⟩
      rcases hunit with rfl | ⟨letter, hunit, rfl⟩
      · exact fun c hc => by cases hc
      · exact List.forall_mem_singleton.2 (hletter hunit)
  | time t => exact t.isInner_text
  | isoDate d => exact d.isInner_text
  | var hname =>
      exact List.forall_mem_cons.2 ⟨rfl, fun c hc => isInner_of_isAlphanum (hname c hc)⟩
  | keyword htext hkeyword => exact hname htext
  | name htext hkeyword => exact hname htext

/-! ## Whole texts -/

/-- Tokens consist of the characters that texts are cut into. -/
theorem Shape.forall_isScanned (h : Shape kind text) : ∀ c ∈ text, isScanned c = true := by
  by_cases hkind : kind = .comma
  · subst hkind
    rw [h.eq_comma]
    exact List.forall_mem_singleton.2 rfl
  · exact fun c hc => by simp [isScanned, h.forall_isInner hkind c hc]

/-- A text that is cut into tokens consists of characters that are scanned. -/
theorem Layout.forall_isScanned (h : Layout pos cs tokens) : ∀ c ∈ cs, isScanned c = true := by
  have hblanks {gap : List Char} (hgap : ∀ c ∈ gap, isAsciiBlank c = true) :
      ∀ c ∈ gap, isScanned c = true :=
    fun c hc => by simp [isScanned, hgap c hc]
  induction h with
  | done hgap => exact hblanks hgap
  | token hgap hshape htail ih =>
      exact List.forall_mem_append.2
        ⟨hblanks hgap, List.forall_mem_append.2 ⟨hshape.forall_isScanned, ih⟩⟩

/-! ## Bytes of a text -/

/-- Characters of one byte each are as many as their bytes. -/
theorem byteLength_eq_length (h : ∀ c ∈ cs, c.utf8Size = 1) : byteLength cs = cs.length := by
  induction cs with
  | nil => rfl
  | cons c cs ih =>
      obtain ⟨hc, hcs⟩ := List.forall_mem_cons.1 h
      rw [byteLength, hc, ih hcs, List.length_cons, Nat.add_comm]

/-- Within the ASCII characters that a text begins with, the part from any byte to any other is a
text. -/
theorem exists_slice {source : String} {front rest : List Char} {start stop : Nat}
    (hsource : source.toList = front ++ rest) (h : ∀ c ∈ front, c.utf8Size = 1)
    (hle : start ≤ stop) (hstop : stop ≤ byteLength front) :
    ∃ before text after : String, source = before ++ text ++ after ∧
      before.utf8ByteSize = start ∧ text.utf8ByteSize = stop - start := by
  have hbytes {cs : List Char} (hcs : cs.Sublist front) : byteLength cs = cs.length :=
    byteLength_eq_length fun c hc => h c (hcs.subset hc)
  rw [hbytes (List.Sublist.refl front)] at hstop
  refine ⟨String.ofList (front.take start), String.ofList ((front.take stop).drop start),
    String.ofList (front.drop stop ++ rest), ?_, ?_, ?_⟩
  · apply String.toList_inj.1
    have htake : front.take start = (front.take stop).take start := by
      rw [List.take_take, Nat.min_eq_left hle]
    simp only [String.toList_append, String.toList_ofList]
    rw [hsource, htake, List.take_append_drop, ← List.append_assoc, List.take_append_drop]
  · rw [← byteLength_toList, String.toList_ofList, hbytes (List.take_sublist ..),
      List.length_take]
    omega
  · rw [← byteLength_toList, String.toList_ofList,
      hbytes ((List.drop_sublist ..).trans (List.take_sublist ..)), List.length_drop,
      List.length_take]
    omega

end Almanac
