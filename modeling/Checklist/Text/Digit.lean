import Checklist.Text.Basic

/-!
# Digits — decimal digits of every script, and numbers written with them

A decimal digit is any character of general category Nd; each script has its ten digits in a row,
so a table of the zeros is enough. Numbers are written with the digits `0` to `9` only:
`fixedDigits` fills a given width and `decimal` takes as few as it needs. `Integer.read?` is the
reader of whole numbers, which takes the digits of any script.
-/

namespace Checklist.Text

/-- The code points of the digit zero, one for each script. -/
def zeroPoints : List Nat := [
  0x30, 0x660, 0x6F0, 0x7C0, 0x966, 0x9E6, 0xA66, 0xAE6, 0xB66, 0xBE6, 0xC66, 0xCE6, 0xD66,
  0xDE6, 0xE50, 0xED0, 0xF20, 0x1040, 0x1090, 0x17E0, 0x1810, 0x1946, 0x19D0, 0x1A80, 0x1A90,
  0x1B50, 0x1BB0, 0x1C40, 0x1C50, 0xA620, 0xA8D0, 0xA900, 0xA9D0, 0xA9F0, 0xAA50, 0xABF0, 0xFF10,
  0x104A0, 0x10D30, 0x11066, 0x110F0, 0x11136, 0x111D0, 0x112F0, 0x11450, 0x114D0, 0x11650,
  0x116C0, 0x11730, 0x118E0, 0x11950, 0x11C50, 0x11D50, 0x11DA0, 0x16A60, 0x16AC0, 0x16B50,
  0x1D7CE, 0x1D7D8, 0x1D7E2, 0x1D7EC, 0x1D7F6, 0x1E140, 0x1E2F0, 0x1E950, 0x1FBF0]

/-- The value of a decimal digit of any script. -/
def digitValue? (c : Char) : Option Nat :=
  (zeroPoints.find? fun start => start ≤ c.toNat && c.toNat ≤ start + 9).map (c.toNat - ·)

/-- Whether the character is a decimal digit of any script. -/
def isDigit (c : Char) : Bool := (digitValue? c).isSome

/-- The value of one of the digits `0` to `9`. -/
def asciiDigit? (c : Char) : Option Nat :=
  if '0' ≤ c ∧ c ≤ '9' then some (c.toNat - 48) else none

/-- The last `width` digits of `n` in `base`, which is at most sixteen. -/
def fixedDigits (base : Nat) : Nat → Nat → Text
  | 0, _ => []
  | width + 1, n => fixedDigits base width (n / base) ++ [Nat.digitChar (n % base)]

/-- The digits of `n` without a needless zero in front. -/
def decimal (n : Nat) : Text :=
  if n < 10 then [Nat.digitChar n] else decimal (n / 10) ++ [Nat.digitChar (n % 10)]

/-- A whole number with a minus sign when it is negative. -/
def signedDecimal (n : Int) : Text :=
  if n < 0 then '-' :: decimal n.natAbs else decimal n.natAbs

@[simp] theorem length_fixedDigits (base width n : Nat) :
    (fixedDigits base width n).length = width := by
  induction width generalizing n with
  | zero => rfl
  | succ width ih => simp [fixedDigits, ih]

end Checklist.Text

namespace Checklist.Integer

open Text

/-- The most digits that a number may be written with. -/
def digitLimit : Nat := 4300

/-- The number that the text continues, `value` being what was read so far: digits, where a single
low line may stand between two of them. -/
def continue? (value : Nat) : Text → Option Nat
  | [] => some value
  | [c] => (digitValue? c).map (10 * value + ·)
  | c :: d :: s =>
    if c = '_' then (digitValue? d).bind fun v => continue? (10 * value + v) s
    else (digitValue? c).bind fun v => continue? (10 * value + v) (d :: s)

/-- The number written by a text that begins with a digit. -/
def magnitude? : Text → Option Nat
  | [] => none
  | c :: s => (digitValue? c).bind fun v => continue? v s

/-- The whole number that the text writes: an optional sign, then at most `digitLimit` digits. -/
def read? (s : Text) : Option Int :=
  if (s.filter isDigit).length ≤ digitLimit then
    match s with
    | '-' :: digits => (magnitude? digits).map fun n => -(n : Int)
    | '+' :: digits => (magnitude? digits).map fun n => (n : Int)
    | digits => (magnitude? digits).map fun n => (n : Int)
  else none

end Checklist.Integer
