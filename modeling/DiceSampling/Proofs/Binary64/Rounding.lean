/-
# Rounding to 53 bits

The numbers that floats can denote, range apart, are the integers below `2 ^ 53`
times a power of two not below `2 ^ -1074`.  `rounded` sends every rational number
to the nearest of them, halfway cases to the even mantissa: a number is rounded to
the nearest multiple of its grid, the distance between neighbouring floats around it.

The main statements are the ones by which bounds are carried through a computation:
what is representable stays, nothing representable is nearer, and rounding is
monotone, so it never crosses a representable number.
-/

import DiceSampling.Proofs.Binary64.Nearest
import Mathlib.Algebra.Order.Field.Power
import Mathlib.Data.Int.Log
import Mathlib.Tactic.FieldSimp
import Mathlib.Tactic.Positivity
import Mathlib.Tactic.Ring

namespace DiceSampling.Binary64

/-- The power of two of the distance between neighbouring floats around a number. -/
def gridExponent (x : ℚ) : ℤ := max (Int.log 2 |x| - 52) (-1074)

/-- The distance between neighbouring floats around a number. -/
def grid (x : ℚ) : ℚ := 2 ^ gridExponent x

/-- The number with a mantissa of 53 bits that is nearest, of two the one with the
even mantissa.  The exponent has a lower bound and no upper bound. -/
def rounded (x : ℚ) : ℚ := nearestEven (x / grid x) * grid x

/-- The numbers with a mantissa of 53 bits. -/
def Representable (x : ℚ) : Prop :=
  ∃ (mantissa exponent : ℤ), |mantissa| < 2 ^ 53 ∧ -1074 ≤ exponent ∧ x = mantissa * 2 ^ exponent

section Grid

variable {x : ℚ} {e : ℤ}

theorem grid_pos (x : ℚ) : 0 < grid x := by unfold grid; positivity

@[simp] theorem gridExponent_neg (x : ℚ) : gridExponent (-x) = gridExponent x := by
  simp [gridExponent]

@[simp] theorem grid_neg (x : ℚ) : grid (-x) = grid x := by simp [grid]

theorem neg_1074_le_gridExponent (x : ℚ) : -1074 ≤ gridExponent x := le_max_right _ _

/-- A number has at most 53 bits before the point when counted in steps of its grid. -/
theorem abs_lt_grid (x : ℚ) : |x| < 2 ^ 53 * grid x := by
  have log := Int.lt_zpow_succ_log_self (b := 2) one_lt_two |x|
  have exponent : Int.log 2 |x| + 1 ≤ 53 + gridExponent x := by unfold gridExponent; omega
  calc
    |x| < 2 ^ (Int.log 2 |x| + 1) := by exact_mod_cast log
    _ ≤ 2 ^ (53 + gridExponent x) := zpow_le_zpow_right₀ one_le_two exponent
    _ = 2 ^ 53 * grid x := by rw [zpow_add₀ two_ne_zero]; norm_num [grid]

/-- Above the subnormal range a number has all of them. -/
theorem grid_le_abs (hx : x ≠ 0) (normal : -1074 < gridExponent x) : 2 ^ 52 * grid x ≤ |x| := by
  have log := Int.zpow_log_le_self (b := 2) one_lt_two (abs_pos.mpr hx)
  have exponent : 52 + gridExponent x = Int.log 2 |x| := by unfold gridExponent at *; omega
  calc
    2 ^ 52 * grid x = 2 ^ (52 + gridExponent x) := by
      rw [zpow_add₀ two_ne_zero]; norm_num [grid]
    _ = 2 ^ Int.log 2 |x| := by rw [exponent]
    _ ≤ |x| := by exact_mod_cast log

/-- A number below `2 ^ (e + 53)` has a grid of `2 ^ e` or finer. -/
theorem gridExponent_le (hx : x ≠ 0) (he : -1074 ≤ e) (small : |x| < 2 ^ (e + 53)) :
    gridExponent x ≤ e := by
  have log : Int.log 2 |x| < e + 53 :=
    (Int.lt_zpow_iff_log_lt one_lt_two (abs_pos.mpr hx)).mp (by exact_mod_cast small)
  unfold gridExponent
  omega

/-- A number from `2 ^ (e + 52)` on has a grid of `2 ^ e` or coarser. -/
theorem le_gridExponent (large : 2 ^ (e + 52) ≤ |x|) : e ≤ gridExponent x := by
  have hx : 0 < |x| := lt_of_lt_of_le (by positivity) large
  have log : e + 52 ≤ Int.log 2 |x| :=
    (Int.zpow_le_iff_le_log one_lt_two hx).mp (by exact_mod_cast large)
  unfold gridExponent
  omega

/-- The numbers of one binade share their grid. -/
theorem gridExponent_eq (he : -1074 ≤ e) (lower : 2 ^ (e + 52) ≤ |x|)
    (upper : |x| < 2 ^ (e + 53)) : gridExponent x = e := by
  have hx : 0 < |x| := lt_of_lt_of_le (by positivity) lower
  exact le_antisymm (gridExponent_le (abs_pos.mp hx) he upper) (le_gridExponent lower)

theorem gridExponent_of_binade {k : ℕ} (lower : 2 ^ k ≤ x) (upper : x < 2 ^ (k + 1)) :
    gridExponent x = k - 52 := by
  have nonneg : 0 ≤ x := le_trans (by positivity) lower
  apply gridExponent_eq (by omega) <;> rw [abs_of_nonneg nonneg]
  · rwa [show (k - 52 + 52 : ℤ) = (k : ℕ) by ring, zpow_natCast]
  · rwa [show (k - 52 + 53 : ℤ) = (k + 1 : ℕ) by push_cast; ring, zpow_natCast]

/-- Larger numbers have coarser grids. -/
theorem gridExponent_mono {y : ℚ} (hx : x ≠ 0) (h : |x| ≤ |y|) :
    gridExponent x ≤ gridExponent y := by
  have log : Int.log 2 |x| ≤ Int.log 2 |y| := Int.log_mono_right (abs_pos.mpr hx) h
  unfold gridExponent
  omega

/-- Distances are counted in steps. -/
theorem abs_sub_mul_grid (x y : ℚ) (n : ℚ) : |x - n * grid y| = |x / grid y - n| * grid y := by
  have positive := grid_pos y
  rw [← abs_of_pos positive, ← abs_mul, abs_of_pos positive, sub_mul,
    div_mul_cancel₀ _ positive.ne']

end Grid

section Laws

variable {x y : ℚ}

@[simp] theorem rounded_zero : rounded 0 = 0 := by simp [rounded]

@[simp] theorem rounded_neg (x : ℚ) : rounded (-x) = -rounded x := by
  simp [rounded, neg_div]

/-- What is strictly within half a step of a multiple of the grid is rounded to it. -/
theorem rounded_eq_of_lt {n : ℤ} (near : |x / grid x - n| < 1 / 2) : rounded x = n * grid x := by
  rw [rounded, nearestEven_eq_of_lt near]

theorem Representable.neg (h : Representable x) : Representable (-x) := by
  obtain ⟨m, e, hm, he, rfl⟩ := h
  exact ⟨-m, e, by rwa [abs_neg], he, by push_cast; ring⟩

/-- An integer of up to 53 bits times a representable power of two is representable. -/
theorem representable_mul_zpow {n e : ℤ} (small : |n| ≤ 2 ^ 53) (he : -1074 ≤ e) :
    Representable (n * 2 ^ e) := by
  rcases small.lt_or_eq with h | h
  · exact ⟨n, e, h, he, rfl⟩
  · have shift : (2 : ℚ) ^ (e + 1) = 2 ^ e * 2 := zpow_add_one₀ two_ne_zero e
    rcases abs_choice n with hn | hn <;> rw [hn] at h
    · exact ⟨2 ^ 52, e + 1, by norm_num, by omega, by rw [h, shift]; push_cast; ring⟩
    · exact ⟨-2 ^ 52, e + 1, by norm_num, by omega,
        by rw [neg_eq_iff_eq_neg.mp h, shift]; push_cast; ring⟩

theorem representable_intCast {n : ℤ} (small : |n| ≤ 2 ^ 53) : Representable n := by
  have h := representable_mul_zpow small (show (-1074 : ℤ) ≤ 0 by norm_num)
  rwa [zpow_zero, mul_one] at h

theorem representable_natCast {n : ℕ} (small : n ≤ 2 ^ 53) : Representable n :=
  representable_intCast (n := n) (by rw [abs_of_nonneg] <;> omega)

theorem representable_zero : Representable 0 :=
  ⟨0, 0, by norm_num, by norm_num, by simp⟩

theorem representable_zpow {e : ℤ} (he : -1074 ≤ e) : Representable (2 ^ e) :=
  ⟨1, e, by norm_num, he, by simp⟩

theorem representable_two_pow (t : ℕ) : Representable (2 ^ t) := by
  exact_mod_cast representable_zpow (e := t) (by omega)

theorem representable_one : Representable 1 := by
  simpa using representable_two_pow 0

/-- The least of the positive ones. -/
theorem Representable.least_le (h : Representable x) (positive : 0 < x) :
    2 ^ (-1074 : ℤ) ≤ x := by
  obtain ⟨m, e, -, he, rfl⟩ := h
  have power : (0 : ℚ) < 2 ^ e := by positivity
  have whole : (1 : ℚ) ≤ m := by
    exact_mod_cast (show 0 < m by exact_mod_cast (mul_pos_iff_of_pos_right power).mp positive)
  calc
    (2 : ℚ) ^ (-1074 : ℤ) ≤ 2 ^ e := zpow_le_zpow_right₀ one_le_two he
    _ ≤ m * 2 ^ e := le_mul_of_one_le_left power.le whole

/-- Numbers with a coarser exponent lie on the grid. -/
theorem exists_eq_mul_grid (m : ℤ) {e : ℤ} (coarse : gridExponent x ≤ e) :
    ∃ n : ℤ, (m : ℚ) * 2 ^ e = n * grid x := by
  obtain ⟨k, rfl⟩ : ∃ k : ℕ, e = gridExponent x + k := ⟨(e - gridExponent x).toNat, by omega⟩
  refine ⟨m * 2 ^ k, ?_⟩
  rw [zpow_add₀ two_ne_zero, zpow_natCast, grid]
  push_cast
  ring

/-- No number of the grid is nearer than the one that rounding gives. -/
theorem abs_sub_rounded_le_abs_sub_mul_grid (x : ℚ) (n : ℤ) :
    |x - rounded x| ≤ |x - n * grid x| := by
  rw [rounded, abs_sub_mul_grid, abs_sub_mul_grid]
  exact mul_le_mul_of_nonneg_right (abs_sub_nearestEven_le_abs_sub _ n) (grid_pos x).le

/-- A representable number is a multiple of its grid, so rounding leaves it alone. -/
theorem rounded_of_representable (h : Representable x) : rounded x = x := by
  rcases eq_or_ne x 0 with rfl | nonzero
  · exact rounded_zero
  obtain ⟨m, e, hm, he, hx⟩ := h
  have small : |x| < 2 ^ (e + 53) := by
    rw [hx, abs_mul, abs_of_pos (show (0 : ℚ) < 2 ^ e by positivity), zpow_add₀ two_ne_zero,
      mul_comm]
    gcongr
    exact_mod_cast hm
  obtain ⟨n, multiple⟩ := exists_eq_mul_grid m (gridExponent_le nonzero he small)
  have nearest := abs_sub_rounded_le_abs_sub_mul_grid x n
  rw [← multiple, ← hx, sub_self, abs_zero] at nearest
  exact (sub_eq_zero.mp (abs_nonpos_iff.mp nearest)).symm

/-- The mantissa after rounding has 53 bits, or is the first number that has not. -/
theorem abs_nearestEven_div_grid_le (x : ℚ) : |nearestEven (x / grid x)| ≤ 2 ^ 53 := by
  have bound : |x / grid x| ≤ 2 ^ 53 := by
    rw [abs_div, abs_of_pos (grid_pos x), div_le_iff₀ (grid_pos x)]
    exact (abs_lt_grid x).le
  obtain ⟨lower, upper⟩ := abs_le.mp bound
  rw [abs_le]
  constructor
  · have h := nearestEven_mono (show ((-2 ^ 53 : ℤ) : ℚ) ≤ x / grid x by exact_mod_cast lower)
    rwa [nearestEven_intCast] at h
  · have h := nearestEven_mono (show x / grid x ≤ ((2 ^ 53 : ℤ) : ℚ) by exact_mod_cast upper)
    rwa [nearestEven_intCast] at h

/-- Rounding gives a representable number. -/
theorem representable_rounded (x : ℚ) : Representable (rounded x) :=
  representable_mul_zpow (abs_nearestEven_div_grid_le x) (neg_1074_le_gridExponent x)

/-- Rounding gives a multiple of every power of two that is not above the grid. -/
theorem exists_rounded_eq_mul {e : ℤ} (fine : e ≤ gridExponent x) :
    ∃ k : ℤ, rounded x = k * 2 ^ e := by
  obtain ⟨d, hd⟩ : ∃ d : ℕ, gridExponent x = e + d := ⟨(gridExponent x - e).toNat, by omega⟩
  refine ⟨nearestEven (x / grid x) * 2 ^ d, ?_⟩
  rw [rounded, grid, hd, zpow_add₀ two_ne_zero, zpow_natCast]
  push_cast
  ring

/-- What lies below the binade of a number is no nearer to it than the end of the binade,
which is on the grid. -/
theorem abs_sub_rounded_le_of_abs_le (hx : x ≠ 0) (normal : -1074 < gridExponent x)
    (small : |y| ≤ 2 ^ 52 * grid x) : |x - rounded x| ≤ |x - y| := by
  have low := grid_le_abs hx normal
  obtain ⟨lower, upper⟩ := abs_le.mp small
  rcases lt_or_gt_of_ne hx with negative | positive
  · rw [abs_of_neg negative] at low
    calc
      |x - rounded x| ≤ |x - (-2 ^ 52 : ℤ) * grid x| := abs_sub_rounded_le_abs_sub_mul_grid x _
      _ ≤ |x - y| := by
        push_cast
        rw [abs_of_nonpos (by linarith), abs_of_nonpos (by linarith)]
        linarith
  · rw [abs_of_pos positive] at low
    calc
      |x - rounded x| ≤ |x - (2 ^ 52 : ℤ) * grid x| := abs_sub_rounded_le_abs_sub_mul_grid x _
      _ ≤ |x - y| := by
        push_cast
        rw [abs_of_nonneg (by linarith), abs_of_nonneg (by linarith)]
        linarith

/-- No representable number is nearer than the one that rounding gives. -/
theorem abs_sub_rounded_le_abs_sub (x : ℚ) (h : Representable y) : |x - rounded x| ≤ |x - y| := by
  rcases eq_or_ne x 0 with rfl | hx
  · rw [rounded_zero, sub_zero, abs_zero]
    exact abs_nonneg _
  obtain ⟨m, e, hm, he, rfl⟩ := h
  rcases le_or_gt (gridExponent x) e with coarse | fine
  · obtain ⟨n, multiple⟩ := exists_eq_mul_grid m coarse
    rw [multiple]
    exact abs_sub_rounded_le_abs_sub_mul_grid x n
  · apply abs_sub_rounded_le_of_abs_le hx (by omega)
    have half : (2 : ℚ) ^ (e + 1) ≤ grid x := zpow_le_zpow_right₀ one_le_two (by omega)
    have hm' : |(m : ℚ)| ≤ 2 ^ 53 := by exact_mod_cast hm.le
    rw [abs_mul, abs_of_pos (show (0 : ℚ) < 2 ^ e by positivity)]
    calc
      |(m : ℚ)| * 2 ^ e ≤ 2 ^ 53 * 2 ^ e := by gcongr
      _ = 2 ^ 52 * 2 ^ (e + 1) := by
        rw [zpow_add_one₀ two_ne_zero]
        ring
      _ ≤ 2 ^ 52 * grid x := by gcongr

/-- Rounding never passes a representable number from below. -/
theorem rounded_le (h : Representable y) (hxy : x ≤ y) : rounded x ≤ y := by
  by_contra above
  have nearest := abs_sub_rounded_le_abs_sub x h
  rw [abs_of_nonpos (by linarith), abs_of_nonpos (by linarith)] at nearest
  linarith

/-- Rounding never passes a representable number from above. -/
theorem le_rounded (h : Representable y) (hyx : y ≤ x) : y ≤ rounded x := by
  have opposite := rounded_le h.neg (neg_le_neg hyx)
  rw [rounded_neg] at opposite
  exact neg_le_neg_iff.mp opposite

theorem rounded_nonneg (hx : 0 ≤ x) : 0 ≤ rounded x := le_rounded representable_zero hx

/-- The magnitude is rounded by itself. -/
theorem abs_rounded (x : ℚ) : |rounded x| = rounded |x| := by
  rcases abs_cases x with ⟨same, nonneg⟩ | ⟨opposite, negative⟩
  · rw [same, abs_of_nonneg (rounded_nonneg nonneg)]
  · rw [opposite, ← abs_neg, ← rounded_neg, abs_of_nonneg (rounded_nonneg (by linarith))]

theorem abs_rounded_le (h : Representable y) (bound : |x| ≤ y) : |rounded x| ≤ y := by
  rw [abs_rounded]
  exact rounded_le h bound

theorem le_abs_rounded (h : Representable y) (bound : y ≤ |x|) : y ≤ |rounded x| := by
  rw [abs_rounded]
  exact le_rounded h bound

/-- Larger numbers are rounded to larger ones. -/
theorem rounded_mono : Monotone rounded := by
  intro x y hxy
  by_contra crossed
  rw [not_le] at crossed
  -- Both numbers lie between the two results, and each is nearer to its own.
  have inside : rounded y < x := by
    by_contra h
    exact absurd (rounded_le (representable_rounded y) (not_lt.mp h)) (not_le.mpr crossed)
  have inside' : y < rounded x := by
    by_contra h
    exact absurd (le_rounded (representable_rounded x) (not_lt.mp h)) (not_le.mpr crossed)
  have nearX := abs_sub_rounded_le_abs_sub x (representable_rounded y)
  have nearY := abs_sub_rounded_le_abs_sub y (representable_rounded x)
  rw [abs_of_nonpos (by linarith), abs_of_nonneg (by linarith)] at nearX
  rw [abs_of_nonneg (by linarith), abs_of_nonpos (by linarith)] at nearY
  have same : x = y := by linarith
  exact crossed.ne (by rw [same])

/-- A number of 53 bits exceeds a smaller one by more than half a unit of its last bit. -/
theorem Representable.mul_lt_of_lt (hx : Representable x) (hy : Representable y)
    (positive : 0 < x) (less : x < y) : (1 + 2 ^ (-53 : ℤ)) * x < y := by
  have coarser : gridExponent x ≤ gridExponent y := by
    apply gridExponent_mono positive.ne'
    rw [abs_of_pos positive, abs_of_pos (positive.trans less)]
    exact less.le
  -- both are multiples of the grid of the smaller one
  obtain ⟨m, hm⟩ := exists_rounded_eq_mul (x := x) le_rfl
  obtain ⟨n, hn⟩ := exists_rounded_eq_mul coarser
  rw [rounded_of_representable hx, ← grid] at hm
  rw [rounded_of_representable hy, ← grid] at hn
  have apart : (m : ℚ) + 1 ≤ n := by
    have steps : (m : ℚ) < n := by
      rw [← mul_lt_mul_iff_left₀ (grid_pos x), ← hm, ← hn]
      exact less
    exact_mod_cast steps
  have short := abs_lt_grid x
  rw [abs_of_pos positive] at short
  calc
    (1 + 2 ^ (-53 : ℤ)) * x = x + 2 ^ (-53 : ℤ) * x := by ring
    _ < x + 2 ^ (-53 : ℤ) * (2 ^ 53 * grid x) := by gcongr
    _ = x + grid x := by
      rw [← mul_assoc]
      norm_num
    _ = (m + 1) * grid x := by rw [add_mul, one_mul, ← hm]
    _ ≤ n * grid x := mul_le_mul_of_nonneg_right apart (grid_pos x).le
    _ = y := hn.symm

/-- A number past the middle between one and the next float is not rounded to one. -/
theorem one_lt_rounded (large : 1 + 2 ^ (-53 : ℤ) < x) : 1 < rounded x := by
  have next : Representable (1 + 2 ^ (-52 : ℤ)) :=
    ⟨2 ^ 52 + 1, -52, by norm_num, by norm_num, by norm_num⟩
  have half : (2 : ℚ) ^ (-52 : ℤ) = 2 ^ (-53 : ℤ) + 2 ^ (-53 : ℤ) := by norm_num
  have positive : (0 : ℚ) < 2 ^ (-53 : ℤ) := by positivity
  by_contra small
  rcases le_or_gt (1 + 2 ^ (-52 : ℤ)) x with above | below
  · have passed := le_rounded next above
    linarith
  · have nearest := abs_sub_rounded_le_abs_sub x next
    rw [abs_of_nonneg (by linarith), abs_of_neg (by linarith)] at nearest
    linarith

/-- Rounding a quotient of numbers of 53 bits does not hide that it is more than one. -/
theorem rounded_div_le_one_iff (hx : Representable x) (hy : Representable y) (positive : 0 < y) :
    rounded (x / y) ≤ 1 ↔ x ≤ y := by
  constructor
  · intro small
    by_contra greater
    have apart := hy.mul_lt_of_lt hx positive (not_le.mp greater)
    exact small.not_gt (one_lt_rounded ((lt_div_iff₀ positive).mpr apart))
  · intro le
    exact rounded_le representable_one ((div_le_one positive).mpr le)

end Laws

end DiceSampling.Binary64
