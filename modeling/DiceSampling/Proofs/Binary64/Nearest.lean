/-
# The nearest integer

Rounding of exact numbers to whole ones, halfway cases going to the even
neighbour.  The result is pinned by two facts: it is at most half a unit away,
and if it is exactly half a unit away it is even.  All other laws are derived
from these two, so that nothing later looks at the case split of the definition.
-/

import Mathlib.Algebra.Order.Floor.Ring
import Mathlib.Algebra.Ring.Int.Parity
import Mathlib.Data.Rat.Floor
import Mathlib.Tactic.Linarith

namespace DiceSampling.Binary64

/-- The integer nearest to a number; of two that are equally near, the even one. -/
def nearestEven (x : ℚ) : ℤ :=
  if x - ⌊x⌋ < 1 / 2 then ⌊x⌋
  else if 1 / 2 < x - ⌊x⌋ then ⌊x⌋ + 1
  else ⌊x⌋ + ⌊x⌋ % 2

/-- The nearest integer is at most half a unit away. -/
theorem abs_sub_nearestEven_le (x : ℚ) : |x - nearestEven x| ≤ 1 / 2 := by
  have below := Int.floor_le x
  have above := Int.lt_floor_add_one x
  unfold nearestEven
  split_ifs with hlow hhigh
  · exact abs_le.mpr ⟨by linarith, by linarith⟩
  · push_cast
    exact abs_le.mpr ⟨by linarith, by linarith⟩
  · rcases Int.emod_two_eq_zero_or_one ⌊x⌋ with h | h <;> rw [h] <;> push_cast <;>
      exact abs_le.mpr ⟨by linarith, by linarith⟩

/-- An integer exactly half a unit away is chosen only if it is even. -/
theorem even_nearestEven_of_tie {x : ℚ} (tie : |x - nearestEven x| = 1 / 2) :
    Even (nearestEven x) := by
  have below := Int.floor_le x
  have above := Int.lt_floor_add_one x
  unfold nearestEven at tie ⊢
  split_ifs at tie ⊢ with hlow hhigh
  · rw [abs_of_nonneg (by linarith)] at tie
    linarith
  · push_cast at tie
    rw [abs_of_neg (by linarith)] at tie
    linarith
  · rw [Int.even_iff]
    omega

/-- The two facts determine the integer. -/
theorem nearestEven_eq_of_near {x : ℚ} {n : ℤ} (near : |x - n| ≤ 1 / 2)
    (tie : |x - n| = 1 / 2 → Even n) : nearestEven x = n := by
  have near' := abs_sub_nearestEven_le x
  obtain ⟨lower, upper⟩ := abs_le.mp near
  obtain ⟨lower', upper'⟩ := abs_le.mp near'
  have notAbove : (nearestEven x : ℚ) ≤ n + 1 := by linarith
  have notBelow : (n : ℚ) - 1 ≤ nearestEven x := by linarith
  by_contra different
  -- Distinct integers that are both within half a unit are both exactly half a unit away.
  have apart : nearestEven x = n + 1 ∨ nearestEven x = n - 1 := by
    norm_cast at notAbove notBelow
    omega
  have even := even_nearestEven_of_tie (x := x)
  rcases apart with h | h
  · have hx : x - n = 1 / 2 := by rw [h] at lower'; push_cast at lower'; linarith
    have hn := tie (by rw [hx]; norm_num)
    have hm := even (by rw [h]; push_cast; rw [show x - (n + 1) = -(1 / 2) by linarith]; norm_num)
    rw [h, Int.even_add_one] at hm
    exact hm hn
  · have hx : x - n = -(1 / 2) := by rw [h] at upper'; push_cast at upper'; linarith
    have hn := tie (by rw [hx]; norm_num)
    have hm := even (by rw [h]; push_cast; rw [show x - (n - 1) = 1 / 2 by linarith]; norm_num)
    rw [h, Int.even_sub_one] at hm
    exact hm hn

/-- A number strictly within half a unit of an integer goes to it. -/
theorem nearestEven_eq_of_lt {x : ℚ} {n : ℤ} (near : |x - n| < 1 / 2) : nearestEven x = n :=
  nearestEven_eq_of_near near.le fun tie => absurd tie near.ne

/-- Integers stay where they are. -/
@[simp] theorem nearestEven_intCast (n : ℤ) : nearestEven n = n :=
  nearestEven_eq_of_lt (by simp)

@[simp] theorem nearestEven_zero : nearestEven 0 = 0 := by simpa using nearestEven_intCast 0

/-- The opposite of a number goes to the opposite integer. -/
@[simp] theorem nearestEven_neg (x : ℚ) : nearestEven (-x) = -nearestEven x := by
  have distance : |-x - (-nearestEven x : ℤ)| = |x - nearestEven x| := by
    push_cast
    rw [neg_sub_neg, abs_sub_comm]
  apply nearestEven_eq_of_near
  · rw [distance]
    exact abs_sub_nearestEven_le x
  · rw [distance]
    exact fun tie => (even_nearestEven_of_tie tie).neg

/-- No integer is nearer. -/
theorem abs_sub_nearestEven_le_abs_sub (x : ℚ) (n : ℤ) : |x - nearestEven x| ≤ |x - n| := by
  have near := abs_sub_nearestEven_le x
  rcases lt_or_ge |x - n| (1 / 2) with h | h
  · rw [nearestEven_eq_of_lt h]
  · exact near.trans h

/-- Larger numbers go to larger integers. -/
theorem nearestEven_mono {x y : ℚ} (hxy : x ≤ y) : nearestEven x ≤ nearestEven y := by
  by_contra crossed
  obtain ⟨lower, -⟩ := abs_le.mp (abs_sub_nearestEven_le y)
  obtain ⟨-, upper⟩ := abs_le.mp (abs_sub_nearestEven_le x)
  obtain ⟨lower', -⟩ := abs_le.mp (abs_sub_nearestEven_le x)
  obtain ⟨-, upper'⟩ := abs_le.mp (abs_sub_nearestEven_le y)
  have gap : (nearestEven y : ℚ) + 1 ≤ nearestEven x := by
    exact_mod_cast not_le.mp crossed
  have same : x = y := by linarith
  exact crossed (by rw [same])

end DiceSampling.Binary64
