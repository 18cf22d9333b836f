import Checklist.Number.Rounding

/-!
# Shortest decimals — the fewest digits that identify a binary number

A number of binary precision is told by any decimal that rounds to it. `Decimal.shortest` looks for
one on ever finer decimal grids: on each of them only the two neighbours of the number can be the
nearest points, so the first grid with a neighbour that rounds back to the number gives the fewest
digits.
-/

namespace Checklist

/-- A positive decimal: digits, and the power of ten that the last of them counts. -/
structure Decimal where
  digits : Nat
  exponent : Int
  deriving DecidableEq

namespace Decimal

open Rounding

/-- The number that the decimal writes. -/
def value (d : Decimal) : Rat := d.digits * 10 ^ d.exponent

/-- Whether the decimal rounds to the number. -/
def readsBack (x : Rat) (d : Decimal) : Bool := nearestBinary d.value = x

/-- The exponent of the largest power of ten that is at most `x`, for a positive `x`. -/
def leadingExponent (x : Rat) : Int :=
  let guess := binaryExponent x * 30103 / 100000
  if 10 ^ (guess + 1) ≤ x then guess + 1
  else if 10 ^ guess ≤ x then guess
  else guess - 1

/-- On the grid of this power of ten, the neighbour of `x` that rounds to it; of two the nearer, and
half way between them the even one. -/
def onGrid? (x : Rat) (exponent : Int) : Option Decimal :=
  let scaled := x / 10 ^ exponent
  let below := scaled.floor.toNat
  let lower : Decimal := ⟨below, exponent⟩
  let upper : Decimal := ⟨below + 1, exponent⟩
  match readsBack x lower, readsBack x upper with
  | true, true => some ⟨(nearestInt scaled).toNat, exponent⟩
  | true, false => some lower
  | false, true => some upper
  | false, false => none

/-- The decimal without zeros at the end of at most `fuel` digits. -/
def dropZeros : (fuel : Nat) → Decimal → Decimal
  | 0, d => d
  | fuel + 1, d =>
    if d.digits % 10 = 0 ∧ d.digits ≠ 0 then dropZeros fuel ⟨d.digits / 10, d.exponent + 1⟩ else d

/-- The most digits that are needed to tell two numbers of binary precision apart. -/
def digitLimit : Nat := 17

/-- The decimal with the fewest digits that rounds to the positive number `x`. -/
def shortest (x : Rat) : Decimal :=
  let finest : Decimal :=
    let exponent := leadingExponent x - (digitLimit - 1)
    ⟨(nearestInt (x / 10 ^ exponent)).toNat, exponent⟩
  let found := (List.range digitLimit).findSome? fun (n : Nat) => onGrid? x (leadingExponent x - n)
  dropZeros digitLimit (found.getD finest)

end Decimal

end Checklist
