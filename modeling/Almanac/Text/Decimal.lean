/-!
# Decimal digits

Numbers are read from runs of ASCII digits and written with a least width.

Main definitions:

- `valueOf`: the number that a run of digits denotes.
- `fixedDigits`: the last digits of a number, exactly as many as asked for.
- `padded`: a number in at least so many digits.
-/

namespace Almanac.Text

/-! ## Reading -/

/-- The value of one decimal digit. -/
def digitValue (c : Char) : Nat :=
  c.toNat - '0'.toNat

/-- The number that a run of decimal digits denotes, most significant first. -/
def valueOf (digits : List Char) : Nat :=
  digits.foldl (fun n c => 10 * n + digitValue c) 0

/-! ## Writing -/

/-- The last `width` decimal digits of `n`. -/
def fixedDigits : Nat → Nat → List Char
  | 0, _ => []
  | width + 1, n => fixedDigits width (n / 10) ++ [Nat.digitChar (n % 10)]

/-- The number `n` in at least `width` digits, with leading zeros where it has fewer. -/
def padded (width n : Nat) : List Char :=
  if n < Nat.pow 10 width then fixedDigits width n else Nat.toDigits 10 n

/-- The number `n` without leading zeros. -/
def plain (n : Nat) : List Char :=
  Nat.toDigits 10 n

/-- An integer with a minus sign where it is negative. -/
def signed (n : Int) : List Char :=
  if n < 0 then '-' :: plain n.natAbs else plain n.natAbs

/-- Fill a text with `fill` on the left until it has `width` characters. -/
def fillLeft (fill : Char) (width : Nat) (cs : List Char) : List Char :=
  List.replicate (width - cs.length) fill ++ cs

@[simp] theorem length_fixedDigits (width n : Nat) : (fixedDigits width n).length = width := by
  induction width generalizing n with
  | zero => rfl
  | succ width ih => simp [fixedDigits, ih]

/-! ## Length in bytes -/

/-- The number of bytes of a text in UTF-8. -/
def byteLength : List Char → Nat
  | [] => 0
  | c :: cs => c.utf8Size + byteLength cs

@[simp] theorem byteLength_append (a b : List Char) :
    byteLength (a ++ b) = byteLength a + byteLength b := by
  induction a with
  | nil => simp [byteLength]
  | cons c a ih => simp [byteLength, ih, Nat.add_assoc]

/-- Split a text after its first `n` bytes, unless that would cut a character in two
or there are fewer bytes. -/
def splitAtByte (n : Nat) : List Char → Option (List Char × List Char)
  | [] => if n = 0 then some ([], []) else none
  | c :: cs =>
    if n = 0 then some ([], c :: cs)
    else if c.utf8Size ≤ n then
      (splitAtByte (n - c.utf8Size) cs).map fun (front, rest) => (c :: front, rest)
    else none

end Almanac.Text
