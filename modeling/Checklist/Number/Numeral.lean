import Checklist.Number.Shortest
import Checklist.Text.Digit

/-!
# Numerals — numbers as documents write them and messages show them

A numeral without a fraction and an exponent is a whole number of any size; every other one is a
number of binary precision, which keeps the sign of a zero and may be too large to be finite.
-/

namespace Checklist

/-- What a numeral stands for. -/
inductive Numeral where
  | whole (value : Int)
  | binary (negative : Bool) (magnitude : Rat)
  | infinite (negative : Bool)
  | undefined
  deriving DecidableEq

namespace Numeral

open Text

/-- The number that digits `0` to `9` write; other characters count as zeros. -/
def ofDigits (s : Text) : Nat := s.foldl (fun n c => 10 * n + (asciiDigit? c).getD 0) 0

/-- The least power of ten that is too large to be finite, whatever its digits. -/
def overflowExponent : Int := 310

/-- The greatest power of ten under which every number is rounded to zero. -/
def underflowExponent : Int := -330

/-- The numeral of binary precision that is nearest to the decimal. -/
def ofDecimal (negative : Bool) (d : Decimal) : Numeral :=
  let size := d.exponent + (decimal d.digits).length
  if d.digits = 0 ∨ size < underflowExponent then .binary negative 0
  else if overflowExponent < size then .infinite negative
  else
    let value := Rounding.nearestBinary d.value
    if (2 : Rat) ^ (1024 : Int) ≤ value then .infinite negative else .binary negative value

/-- An exponent as it is written behind its letter. -/
def exponentOf : Text → Int
  | '-' :: s => -(ofDigits s : Int)
  | '+' :: s => ofDigits s
  | s => ofDigits s

/-- What a numeral stands for, by its sign, its digits, those behind the point, and its exponent. -/
def ofParts (negative : Bool) (digits : Text) (fraction exponent : Option Text) : Numeral :=
  if fraction.isNone ∧ exponent.isNone then
    .whole (if negative then -(ofDigits digits : Int) else ofDigits digits)
  else
    let fraction := fraction.getD []
    ofDecimal negative
      ⟨ofDigits (digits ++ fraction), exponentOf (exponent.getD []) - fraction.length⟩

/-- The number, if it is one. -/
def rat? : Numeral → Option Rat
  | .whole n => some n
  | .binary negative x => some (if negative then -x else x)
  | _ => none

/-- A decimal as a message shows it: with a point from a ten-thousandth up to ten quadrillions, and
beyond that as digits and an exponent of two figures or more. -/
def showDecimal (d : Decimal) : Text :=
  let digits := decimal d.digits
  let lead : Int := d.exponent + digits.length - 1
  if lead < -4 ∨ 16 ≤ lead then
    let mantissa := match digits with
      | first :: c :: rest => first :: '.' :: c :: rest
      | _ => digits
    let figures := decimal lead.natAbs
    mantissa ++ 'e' :: (if lead < 0 then '-' else '+') ::
      (if figures.length < 2 then '0' :: figures else figures)
  else if lead < 0 then
    '0' :: '.' :: List.replicate (-lead - 1).toNat '0' ++ digits
  else
    let width := lead.toNat + 1
    digits.take width ++ List.replicate (width - digits.length) '0' ++ '.' ::
      (if digits.length ≤ width then ['0'] else digits.drop width)

/-- The numeral, where those that are no numbers are named by these two words. -/
def render (infinity undefinedName : Text) : Numeral → Text
  | .whole n => signedDecimal n
  | .binary negative x =>
    (if negative then ['-'] else []) ++
      (if x = 0 then "0.0".toList else showDecimal (.shortest x))
  | .infinite negative => (if negative then ['-'] else []) ++ infinity
  | .undefined => undefinedName

/-- The numeral as a message shows it. -/
def shown (n : Numeral) : Text := n.render "inf".toList "nan".toList

/-- The numeral as a document writes it. -/
def written (n : Numeral) : Text := n.render "Infinity".toList "NaN".toList

end Numeral

end Checklist
