/-
# Draws from a range

A value is taken to a point of the range in two rounded steps, and the integer part of the
point is brought into 32 bits.  Rounding never passes an integer of that size.  So a value
of `[0, 1)` leads to one of the integers around the exact point, and a larger value never
leads to a smaller result.  A product that is out of range does no harm, because an infinity
and a number that is too large are brought to the same end.
-/

import DiceSampling.Dice
import DiceSampling.Proofs.Binary64.Order

namespace DiceSampling

open Binary64

/-- The point of a range that a value stands for, in exact arithmetic. -/
def exactPoint (lower upper : UInt32) (q : ℚ) : ℚ :=
  lower.toNat + (upper.toNat + 1 - lower.toNat) * q

/-- The point with its product and its sum rounded. -/
def roundedPoint (lower upper : UInt32) (q : ℚ) : ℚ :=
  rounded (lower.toNat + rounded ((upper.toNat + 1 - lower.toNat) * q))

section Point

variable {lower upper : UInt32} {q : ℚ}

/-- Rounding does not take a point below an integer. -/
theorem le_roundedPoint {n : ℤ} (small : |n| ≤ 2 ^ 32)
    (le : (n : ℚ) ≤ exactPoint lower upper q) : (n : ℚ) ≤ roundedPoint lower upper q := by
  have start := lower.toNat_lt
  rw [abs_le] at small
  have product : ((n - lower.toNat : ℤ) : ℚ) ≤
      rounded ((upper.toNat + 1 - lower.toNat) * q) := by
    refine le_rounded (representable_intCast ?_) ?_
    · rw [abs_le]
      omega
    · rw [exactPoint] at le
      push_cast
      linarith
  refine le_rounded (representable_intCast ?_) ?_
  · rw [abs_le]
    omega
  · push_cast at product
    linarith

/-- Rounding does not take a point above an integer. -/
theorem roundedPoint_le {n : ℤ} (small : |n| ≤ 2 ^ 32)
    (le : exactPoint lower upper q ≤ n) : roundedPoint lower upper q ≤ n := by
  have start := lower.toNat_lt
  rw [abs_le] at small
  have product : rounded ((upper.toNat + 1 - lower.toNat) * q) ≤
      ((n - lower.toNat : ℤ) : ℚ) := by
    refine rounded_le (representable_intCast ?_) ?_
    · rw [abs_le]
      omega
    · rw [exactPoint] at le
      push_cast
      linarith
  refine rounded_le (representable_intCast ?_) ?_
  · rw [abs_le]
    omega
  · push_cast at product
    linarith

theorem width_pos (ordered : lower ≤ upper) : (0 : ℚ) < upper.toNat + 1 - lower.toNat := by
  have ordered' : (lower.toNat : ℚ) ≤ upper.toNat := by
    exact_mod_cast UInt32.le_iff_toNat_le.mp ordered
  linarith

theorem roundedPoint_mono (ordered : lower ≤ upper) : Monotone (roundedPoint lower upper) := by
  intro p q hpq
  have width := width_pos ordered
  apply rounded_mono
  gcongr
  apply rounded_mono
  gcongr

/-- A value of `[0, 1)` stands for a point of the range. -/
theorem exactPoint_of_unit (ordered : lower ≤ upper) (nonneg : 0 ≤ q) (below : q < 1) :
    lower.toNat ≤ exactPoint lower upper q ∧ exactPoint lower upper q < upper.toNat + 1 := by
  have width := width_pos ordered
  unfold exactPoint
  constructor
  · have : 0 ≤ (upper.toNat + 1 - lower.toNat : ℚ) * q := by positivity
    linarith
  · nlinarith

end Point

section Float

variable {lower upper : UInt32} {r r' : Float} {q : ℚ}

/-- The width of a range is computed without rounding. -/
theorem value?_width (lower upper : UInt32) :
    value? (upper.toFloat + 1.0 - lower.toFloat) =
      some (upper.toNat + 1 - lower.toNat : ℚ) := by
  have boundL : (lower.toNat : ℚ) < 2 ^ 32 := by exact_mod_cast lower.toNat_lt
  have boundU : (upper.toNat : ℚ) < 2 ^ 32 := by exact_mod_cast upper.toNat_lt
  have leastL : (0 : ℚ) ≤ lower.toNat := Nat.cast_nonneg _
  have leastU : (0 : ℚ) ≤ upper.toNat := Nat.cast_nonneg _
  have wholeL := lower.toNat_lt
  have wholeU := upper.toNat_lt
  have raised : Representable (upper.toNat + 1 : ℚ) := by
    exact_mod_cast representable_natCast (n := upper.toNat + 1) (by omega)
  have width : Representable (upper.toNat + 1 - lower.toNat : ℚ) := by
    exact_mod_cast representable_intCast (n := (upper.toNat + 1 - lower.toNat : ℤ)) (by
      rw [abs_le]
      omega)
  have sum := value?_add (value?_toFloat upper) value?_one
    (abs_rounded_lt_outOfRange (by rw [abs_le]; constructor <;> linarith))
  rw [rounded_of_representable raised] at sum
  have difference := value?_sub sum (value?_toFloat lower)
    (abs_rounded_lt_outOfRange (by rw [abs_le]; constructor <;> linarith))
  rwa [rounded_of_representable width] at difference

/-- The steps of a draw are exact but for the product and the last sum, and it does not
show if one of these is out of range. -/
theorem toNat_draw_eq (hr : value? r = some q) :
    (draw lower upper r).toNat = min (2 ^ 32 - 1) ⌊roundedPoint lower upper q⌋.toNat := by
  have start := value?_toFloat lower
  unfold draw roundedPoint
  cases carries_mul (value?_width lower upper) hr with
  | number _ product => exact toNat_toUInt32_of_carries (carries_add start product)
  | infinity tooLarge product =>
      have bound : (lower.toNat : ℚ) ≤ 2 ^ 32 := by exact_mod_cast lower.toNat_lt.le
      have least : (0 : ℚ) ≤ lower.toNat := Nat.cast_nonneg _
      have large := two_pow_le_outOfRange.trans tooLarge
      rw [toNat_toUInt32_of_infinite (ofFloat_add_infinite start product)]
      rcases le_or_gt 0 (rounded ((upper.toNat + 1 - lower.toNat) * q)) with nonneg | negative
      · rw [abs_of_nonneg nonneg] at large
        have top : Representable (2 ^ 32 : ℚ) := by
          exact_mod_cast representable_natCast (n := 2 ^ 32) (by norm_num)
        rw [min_toNat_floor_of_le (le_rounded top (by linarith)),
          decide_eq_false nonneg.not_gt]
        rfl
      · rw [abs_of_neg negative] at large
        have zero : Representable 0 := by
          exact_mod_cast representable_natCast (n := 0) (Nat.zero_le _)
        rw [min_toNat_floor_of_nonpos (rounded_le zero (by linarith)), decide_eq_true negative]
        rfl

/-- An infinity leads to the end of the range of the result, not to that of the draw. -/
theorem toNat_draw_of_infinite {negative : Bool} (ordered : lower ≤ upper)
    (hr : ofFloat r = infinite negative) :
    (draw lower upper r).toNat = if negative then 0 else 2 ^ 32 - 1 := by
  have product := ofFloat_mul_infinite (value?_width lower upper) (width_pos ordered) hr
  exact toNat_toUInt32_of_infinite (ofFloat_add_infinite (value?_toFloat lower) product)

/-- Larger values do not lead to smaller results. -/
theorem draw_mono (ordered : lower ≤ upper) (le : r ≤ r') :
    draw lower upper r ≤ draw lower upper r' := by
  rw [UInt32.le_iff_toNat_le]
  rcases le_cases le with least | greatest | ⟨p, q, hr, hr', hpq⟩
  · rw [toNat_draw_of_infinite ordered least]
    exact Nat.zero_le _
  · rw [toNat_draw_of_infinite ordered greatest]
    exact Nat.le_pred_of_lt (UInt32.toNat_lt _)
  · rw [toNat_draw_eq hr, toNat_draw_eq hr']
    have floor := Int.floor_mono (roundedPoint_mono ordered hpq)
    omega

/-- A value of `[0, 1)` leads to one of the integers around its exact point. -/
theorem floor_le_draw_le_ceil (ordered : lower ≤ upper) (hr : value? r = some q)
    (nonneg : 0 ≤ q) (below : q < 1) :
    ⌊exactPoint lower upper q⌋ ≤ (draw lower upper r).toNat ∧
      (draw lower upper r).toNat ≤ ⌈exactPoint lower upper q⌉ := by
  obtain ⟨above, inside⟩ := exactPoint_of_unit ordered nonneg below
  have top := upper.toNat_lt
  have floorLeast : (lower.toNat : ℤ) ≤ ⌊exactPoint lower upper q⌋ :=
    Int.le_floor.mpr (by exact_mod_cast above)
  have floorGreatest : ⌊exactPoint lower upper q⌋ < upper.toNat + 1 :=
    Int.floor_lt.mpr (by exact_mod_cast inside)
  have ceilGreatest : ⌈exactPoint lower upper q⌉ ≤ upper.toNat + 1 :=
    Int.ceil_le.mpr (by exact_mod_cast inside.le)
  have floorLeCeil := Int.floor_le_ceil (exactPoint lower upper q)
  have lowerBound : ⌊exactPoint lower upper q⌋ ≤ ⌊roundedPoint lower upper q⌋ :=
    Int.le_floor.mpr (le_roundedPoint (by rw [abs_le]; omega) (Int.floor_le _))
  have upperBound : ⌊roundedPoint lower upper q⌋ ≤ ⌈exactPoint lower upper q⌉ := by
    have point := roundedPoint_le (by rw [abs_le]; omega) (Int.le_ceil (exactPoint lower upper q))
    exact_mod_cast (Int.floor_le _).trans point
  rw [toNat_draw_eq hr]
  omega

/-- A value of `[0, 1)` leads to an integer between the floor and the ceiling of its exact
point: to the point itself if that is an integer, and else to the floor or the number after it.
Over all floats but those that are not numbers, the infinities included, a larger value never
leads to a smaller result. -/
theorem draw_near_formula (ordered : lower ≤ upper) :
    (∀ r : Float, 0.0 ≤ r → r < 1.0 → ∃ q, value? r = some q ∧
      ⌊exactPoint lower upper q⌋ ≤ (draw lower upper r).toNat ∧
      (draw lower upper r).toNat ≤ ⌈exactPoint lower upper q⌉ ∧
      (draw lower upper r).toNat ≤ ⌊exactPoint lower upper q⌋ + 1 ∧
      ∀ n : ℤ, exactPoint lower upper q = n → (draw lower upper r).toNat = n) ∧
    ∀ r r' : Float, r ≤ r' → draw lower upper r ≤ draw lower upper r' := by
  constructor
  · intro r nonneg below
    obtain ⟨q, hr, nonneg', below'⟩ := exists_value?_of_unit nonneg below
    obtain ⟨floor, ceil⟩ := floor_le_draw_le_ceil ordered hr nonneg' below'
    refine ⟨q, hr, floor, ceil, ceil.trans (Int.ceil_le_floor_add_one _), ?_⟩
    intro n whole
    rw [whole, Int.floor_intCast] at floor
    rw [whole, Int.ceil_intCast] at ceil
    exact le_antisymm ceil floor
  · intro r r' le
    exact draw_mono ordered le

/-- A quarter of the widest range is drawn exactly, and the infinities lead to its ends in
their order. -/
theorem draw_near_formula_of_widest_range :
    (draw 0 4294967295 0.25).toNat = 1073741824 ∧
      draw 0 4294967295 (Float.ofBits 0xfff0000000000000) ≤
        draw 0 4294967295 (Float.ofBits 0x7ff0000000000000) := by
  have near := @draw_near_formula 0 4294967295 (by decide)
  have reading : value? 0.25 = some (1 / 4) := by
    have bits : ofFloat 0.25 = finite false (2 ^ 52) (-54) := by decide
    rw [value?, bits, toRat?, signed_false, Option.some.injEq]
    norm_num
  obtain ⟨q, hq, -, -, -, exact⟩ := near.1 0.25 (by decide) (by decide)
  obtain rfl : 1 / 4 = q := Option.some.inj (reading.symm.trans hq)
  refine ⟨?_, near.2 _ _ (by decide)⟩
  have point : exactPoint 0 4294967295 (1 / 4) = (1073741824 : ℤ) := by
    have top : (4294967295 : UInt32).toNat = 4294967295 := rfl
    rw [exactPoint, top]
    norm_num
  exact_mod_cast exact 1073741824 point

end Float

end DiceSampling
