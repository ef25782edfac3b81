/-
# Floats rounded to natural numbers

A float is rounded through the fraction that its mantissa and exponent make.  In terms of
the number that it denotes this is the floor of that number and a half, so that a larger
float never goes to a smaller number, and a natural number stays.
-/

import DiceSampling.Proofs.Binary64.Reading
import Mathlib.Algebra.Order.Floor.Semifield
import Mathlib.Data.Rat.Floor

namespace DiceSampling.Binary64

namespace Ratio

/-- The number that a fraction denotes. -/
def value (r : Ratio) : ℚ := r.num / r.den

/-- With halves going up, the nearest integer is one floor. -/
theorem round_up (r : Ratio) (positive : 0 < r.den) : r.round .up = ⌊r.value + 1 / 2⌋₊ := by
  have sum : r.value + 1 / 2 = (2 * r.num + r.den : ℕ) / (2 * r.den : ℕ) := by
    have nonzero : (r.den : ℚ) ≠ 0 := by positivity
    rw [value]
    push_cast
    field_simp
  have whole := Nat.div_add_mod r.num r.den
  have part := Nat.mod_lt r.num positive
  have twice (w : ℕ) : w * (2 * r.den) = 2 * (r.den * w) := by ring
  rw [sum, Nat.floor_div_eq_div, round]
  symm
  split_ifs with below above
  · apply Nat.div_eq_of_lt_le <;> rw [twice]
    · omega
    · rw [Nat.mul_succ]
      omega
  all_goals
    apply Nat.div_eq_of_lt_le <;> rw [twice, Nat.mul_succ]
    · omega
    · rw [Nat.mul_succ]
      omega

end Ratio

theorem den_ratio_pos (m : ℕ) (q p : ℤ) : 0 < (ratio m q p).den :=
  Nat.mul_pos (Nat.pow_pos two_pos) (Nat.pow_pos (by decide))

/-- A power with a natural base and an integer exponent, as a numerator or a denominator. -/
theorem pow_toNat_div_pow_toNat_neg {b : ℕ} (hb : b ≠ 0) (e : ℤ) :
    (b : ℚ) ^ e.toNat / b ^ (-e).toNat = b ^ e := by
  have nonzero : (b : ℚ) ≠ 0 := by exact_mod_cast hb
  rw [← zpow_natCast, ← zpow_natCast, ← zpow_sub₀ nonzero]
  congr 1
  omega

/-- The fraction is the number that it is meant for. -/
theorem value_ratio (m : ℕ) (q p : ℤ) : (ratio m q p).value = m * 2 ^ q * 10 ^ p := by
  have two := pow_toNat_div_pow_toNat_neg two_ne_zero q
  have ten := pow_toNat_div_pow_toNat_neg (b := 10) (by decide) p
  push_cast at two ten
  rw [← two, ← ten, Ratio.value, ratio]
  push_cast [Nat.pow_eq]
  rw [mul_div_mul_comm, mul_div_assoc]

/-- A float that denotes a number from zero up goes to the floor of that number and a half. -/
theorem roundToNat_of_value? {x : Float} {q : ℚ} (h : value? x = some q) (nonneg : 0 ≤ q)
    (limit : ℕ) : roundToNat limit x = min limit ⌊q + 1 / 2⌋₊ := by
  rw [value?] at h
  unfold roundToNat
  cases reading : ofFloat x with
  | nan => simp [reading, toRat?] at h
  | infinite negative => simp [reading, toRat?] at h
  | finite negative m e =>
      rw [reading, toRat?, Option.some_inj] at h
      cases negative with
      | false =>
          rw [signed_false] at h
          dsimp only
          rw [Ratio.round_up _ (den_ratio_pos m e 0), value_ratio, zpow_zero, mul_one, h]
      | true =>
          -- only negative zero denotes a number from zero up
          have magnitude : (0 : ℚ) ≤ m * 2 ^ e := by positivity
          rw [signed_true] at h
          obtain rfl : q = 0 := by linarith
          rw [zero_add, Nat.floor_eq_zero.mpr one_half_lt_one, Nat.min_zero]

end DiceSampling.Binary64
