/-!
# Rounding — to a whole number, and to the precision of a binary floating-point number

Percentages and times with a fraction are exact rationals that are rounded in known places:
`nearestInt` to a whole number and `nearestBinary` to 53 significant binary digits. Both round a
value that lies half way to the even neighbour.
-/

namespace Checklist.Rounding

/-- The whole number nearest to `x`, the even one of two. -/
def nearestInt (x : Rat) : Int :=
  let below := x.floor
  let gap := x - below
  if gap < 1 / 2 then below
  else if 1 / 2 < gap then below + 1
  else if below % 2 = 0 then below else below + 1

/-- The exponent of the largest power of two that is at most `x`, for a positive `x`. -/
def binaryExponent (x : Rat) : Int :=
  let guess : Int := (x.num.natAbs.log2 : Int) - (x.den.log2 : Int)
  if x < 2 ^ guess then guess - 1 else guess

/-- The least exponent that the last binary digit may have. -/
def leastExponent : Int := -1074

/-- The number with at most 53 significant binary digits that is nearest to `x`. -/
def nearestBinary (x : Rat) : Rat :=
  if x = 0 then 0
  else
    let last := max (binaryExponent (if x < 0 then -x else x) - 52) leastExponent
    nearestInt (x / 2 ^ last) * 2 ^ last

end Checklist.Rounding
