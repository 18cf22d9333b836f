import Mathlib.Algebra.Group.Nat.Defs
import Mathlib.Data.Rat.Defs
import Checklist.Number.Rounding

/-!
# Exact rounding — whole numbers of fifty-three binary digits

A whole number below 2 to the power 53 is its own nearest binary number (`nearestBinary_intCast`):
the power of two that its last digit may have is at most 1, so what is rounded is a whole number
already.
-/

namespace Checklist.Rounding

theorem nearestInt_intCast (n : Int) : nearestInt (n : Rat) = n := by
  have hgap : (n : Rat) - n < 1 / 2 := by
    rw [Rat.sub_self]
    decide +kernel
  rw [nearestInt, Rat.floor_intCast, if_pos hgap]

/-- The exponent of a whole number is that of its first binary digit. -/
theorem binaryExponent_natCast {n : Nat} (h : n ≠ 0) : binaryExponent (n : Rat) = n.log2 := by
  have hpower : ¬ (n : Rat) < 2 ^ (n.log2 : Int) := by
    rw [Rat.zpow_natCast, Rat.not_lt]
    exact_mod_cast Nat.log2_self_le h
  have hguess : ((n : Rat).num.natAbs.log2 : Int) - ((n : Rat).den.log2 : Int) = n.log2 := by
    have hone : Nat.log2 1 = 0 := by decide
    rw [Rat.num_natCast, Rat.den_natCast, Int.natAbs_natCast, hone]
    exact Int.sub_zero _
  rw [binaryExponent]
  simp only [hguess, if_neg hpower]

/-- Without its sign a whole number is a natural one. -/
theorem abs_intCast (n : Int) :
    (if (n : Rat) < 0 then -(n : Rat) else n) = (n.natAbs : Rat) := by
  rcases Int.lt_or_le n 0 with hneg | hpos
  · have hcast : (n : Rat) < 0 := by exact_mod_cast hneg
    rw [if_pos hcast, ← Rat.intCast_neg, ← Rat.intCast_natCast]
    congr 1
    omega
  · have hcast : ¬ (n : Rat) < 0 := by exact_mod_cast Int.not_lt.mpr hpos
    rw [if_neg hcast, ← Rat.intCast_natCast]
    congr 1
    omega

/-- A whole number below 2 to the power 53 is not changed by rounding. -/
theorem nearestBinary_intCast {n : Int} (h : n.natAbs < 2 ^ 53) : nearestBinary (n : Rat) = n := by
  by_cases hzero : n = 0
  · subst hzero
    rfl
  have hne : (n : Rat) ≠ 0 := by exact_mod_cast hzero
  have hlog : n.natAbs.log2 < 53 := (Nat.log2_lt (Int.natAbs_ne_zero.mpr hzero)).mpr h
  -- The last digit stands for a power of two that divides 1.
  obtain ⟨k, hk⟩ : ∃ k : Nat,
      max (binaryExponent (n.natAbs : Rat) - 52) leastExponent = -(k : Int) := by
    rw [binaryExponent_natCast (Int.natAbs_ne_zero.mpr hzero), leastExponent]
    exact ⟨52 - n.natAbs.log2, by omega⟩
  have hpower : (2 : Rat) ^ k ≠ 0 := Ne.symm (Rat.ne_of_lt (Rat.pow_pos (by decide +kernel)))
  have hwhole : (n : Rat) / (2 ^ k)⁻¹ = ((n * 2 ^ k : Int) : Rat) := by
    rw [Rat.div_def, Rat.inv_inv, Rat.intCast_mul, Rat.intCast_pow]
    rfl
  rw [nearestBinary, if_neg hne]
  simp only [abs_intCast, hk, Rat.zpow_neg, Rat.zpow_natCast]
  rw [hwhole, nearestInt_intCast, ← hwhole, Rat.div_def, Rat.inv_inv, Rat.mul_assoc,
    Rat.mul_inv_cancel _ hpower, Rat.mul_one]

end Checklist.Rounding
