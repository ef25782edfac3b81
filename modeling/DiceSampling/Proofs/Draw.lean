/-
# The face of one die

A value of `[0, 1)` is multiplied by the number of sides and raised by one, and both
steps round.  The result stays below `sides + 1` unless the value is the greatest
float below one and the number of sides is a power of two: then the product is exact,
the sum lies halfway between two floats, and the even one is `sides + 1`.
-/

import DiceSampling.Proofs.DrawRange

namespace DiceSampling

open Binary64

section UnitInterval

variable {q : ℚ}

/-- What is representable and below one falls short of it by a unit of the last place. -/
theorem Binary64.Representable.le_of_lt_one (h : Representable q) (below : q < 1) :
    q = 1 - 2 ^ (-53 : ℤ) ∨ q ≤ 1 - 2 ^ (-52 : ℤ) := by
  rcases le_or_gt q (1 / 2) with small | large
  · right
    norm_num
    linarith
  obtain ⟨m, e, hm, he, rfl⟩ := h
  have place : -53 ≤ e := by
    by_contra hlow
    have bound : (m : ℚ) * 2 ^ e ≤ 2 ^ 53 * 2 ^ (-54 : ℤ) := by
      have hm' : (m : ℚ) ≤ 2 ^ 53 := by exact_mod_cast (abs_lt.mp hm).2.le
      gcongr
      · norm_num
      · omega
    norm_num at bound large
    linarith
  obtain ⟨n, hn⟩ : ∃ n : ℕ, e = n - 53 := ⟨(e + 53).toNat, by omega⟩
  have whole : (m : ℚ) * 2 ^ e = (m * 2 ^ n : ℤ) * 2 ^ (-53 : ℤ) := by
    rw [hn, sub_eq_add_neg, zpow_add₀ two_ne_zero, zpow_natCast]
    push_cast
    ring
  rw [whole] at below ⊢
  have less : (m * 2 ^ n : ℤ) < 2 ^ 53 := by
    rw [zpow_neg, ← div_eq_mul_inv, div_lt_one (by positivity)] at below
    exact_mod_cast below
  rcases (Int.le_sub_one_of_lt less).eq_or_lt with last | early
  · left
    rw [last]
    norm_num
  · right
    have early : ((m * 2 ^ n : ℤ) : ℚ) ≤ 2 ^ 53 - 2 := by exact_mod_cast Int.le_sub_one_of_lt early
    calc
      ((m * 2 ^ n : ℤ) : ℚ) * 2 ^ (-53 : ℤ) ≤ (2 ^ 53 - 2) * 2 ^ (-53 : ℤ) := by gcongr
      _ = 1 - 2 ^ (-52 : ℤ) := by norm_num

end UnitInterval

section Product

variable {n k : ℕ} {p q : ℚ}

/-- The step of the grid that the integers from `2 ^ k` on lie on. -/
theorem natCast_eq_mul_step (hk : k < 52) (n : ℕ) :
    (n : ℚ) = (n * 2 ^ (52 - k) : ℤ) * 2 ^ (k - 52 : ℤ) := by
  have inverse : (2 : ℚ) ^ (52 - k) * 2 ^ (k - 52 : ℤ) = 1 := by
    rw [← zpow_natCast, ← zpow_add₀ two_ne_zero, Nat.cast_sub hk.le]
    simp
  push_cast
  rw [mul_assoc, inverse, mul_one]

theorem natCast_sub_step (hk : k < 52) (n : ℕ) :
    (n : ℚ) - 2 ^ (k - 52 : ℤ) = (n * 2 ^ (52 - k) - 1 : ℤ) * 2 ^ (k - 52 : ℤ) := by
  rw [Int.cast_sub, sub_mul, ← natCast_eq_mul_step hk, Int.cast_one, one_mul]

theorem representable_sub_step (hk : k < 52) (positive : 0 < n) (upper : n ≤ 2 ^ (k + 1)) :
    Representable (n - 2 ^ (k - 52 : ℤ)) := by
  rw [natCast_sub_step hk]
  have bound : n * 2 ^ (52 - k) ≤ 2 ^ 53 := by
    calc
      n * 2 ^ (52 - k) ≤ 2 ^ (k + 1) * 2 ^ (52 - k) := Nat.mul_le_mul_right _ upper
      _ = 2 ^ 53 := by
        rw [← pow_add]
        congr 1
        omega
  have least : 0 < n * 2 ^ (52 - k) := by positivity
  refine representable_mul_zpow ?_ (by omega)
  rw [abs_le]
  zify at bound least
  constructor <;> omega

/-- Short of a power of two, the greatest value is nearer to the step below than to the
number of sides. -/
theorem rounded_mul_greatest (hk : k < 52) (lower : 2 ^ k < n) (upper : n < 2 ^ (k + 1)) :
    rounded (n * (1 - 2 ^ (-53 : ℤ))) = n - 2 ^ (k - 52 : ℤ) := by
  have half : (2 : ℚ) ^ (k - 52 : ℤ) = 2 ^ (k + 1) * 2 ^ (-53 : ℤ) := by
    rw [← zpow_natCast, ← zpow_add₀ two_ne_zero]
    congr 1
    omega
  have lower' : (2 : ℚ) ^ k + 1 ≤ n := by exact_mod_cast lower
  have upper' : (n : ℚ) < 2 ^ (k + 1) := by exact_mod_cast upper
  have small : (2 : ℚ) ^ (k + 1) ≤ 2 ^ 52 := pow_le_pow_right₀ one_le_two hk
  have exponent : gridExponent (n * (1 - 2 ^ (-53 : ℤ))) = k - 52 := by
    apply gridExponent_of_binade <;> norm_num at lower' upper' small ⊢ <;> linarith
  have scale : grid (n * (1 - 2 ^ (-53 : ℤ))) = 2 ^ (k - 52 : ℤ) := by rw [grid, exponent]
  have step : (0 : ℚ) < 2 ^ (k - 52 : ℤ) := by positivity
  rw [rounded_eq_of_lt (n := n * 2 ^ (52 - k) - 1), scale, ← natCast_sub_step hk]
  rw [scale, ← mul_lt_mul_iff_left₀ step, ← scale, ← abs_sub_mul_grid, scale,
    ← natCast_sub_step hk, abs_lt, half]
  rw [pow_succ] at upper' ⊢
  constructor <;> norm_num at * <;> linarith

/-- The product stays a whole step below the number of sides. -/
theorem rounded_mul_le (hk : k < 52) (lower : 2 ^ k ≤ n) (upper : n < 2 ^ (k + 1))
    (representable : Representable q) (below : q < 1)
    (other : q = 1 - 2 ^ (-53 : ℤ) → n ≠ 2 ^ k) :
    rounded (n * q) ≤ n - 2 ^ (k - 52 : ℤ) := by
  rcases representable.le_of_lt_one below with rfl | early
  · exact (rounded_mul_greatest hk (lower.lt_of_ne' (other rfl)) upper).le
  · have positive : 0 < n := lt_of_lt_of_le (by positivity) lower
    apply rounded_le (representable_sub_step hk positive upper.le)
    have lower' : (2 : ℚ) ^ k ≤ n := by exact_mod_cast lower
    calc
      (n : ℚ) * q ≤ n * (1 - 2 ^ (-52 : ℤ)) := by gcongr
      _ = n - n * 2 ^ (-52 : ℤ) := by ring
      _ ≤ n - 2 ^ k * 2 ^ (-52 : ℤ) := by gcongr
      _ = n - 2 ^ (k - 52 : ℤ) := by
        rw [sub_eq_add_neg (k : ℤ), zpow_add₀ two_ne_zero, zpow_natCast]

theorem rounded_one_add_lt (hk : k < 52) (upper : n < 2 ^ (k + 1))
    (bound : p ≤ n - 2 ^ (k - 52 : ℤ)) : rounded (1 + p) < n + 1 := by
  have representable := representable_sub_step hk (Nat.succ_pos n) upper
  have step : (0 : ℚ) < 2 ^ (k - 52 : ℤ) := by positivity
  have le := rounded_le (x := 1 + p) representable (by push_cast; linarith)
  push_cast at le
  linarith

/-- For a power of two the product is exact. -/
theorem representable_two_pow_mul_greatest (hk : k < 52) :
    Representable ((2 ^ k : ℕ) * (1 - 2 ^ (-53 : ℤ))) := by
  refine ⟨2 ^ 53 - 1, k - 53, by norm_num, by omega, ?_⟩
  rw [sub_eq_add_neg (k : ℤ), zpow_add₀ two_ne_zero, zpow_natCast]
  push_cast
  norm_num
  ring

/-- For a power of two the sum is a tie, and it goes to the even side. -/
theorem rounded_one_add_two_pow (hk : k < 52) :
    rounded (1 + rounded ((2 ^ k : ℕ) * (1 - 2 ^ (-53 : ℤ)))) = (2 ^ k + 1 : ℕ) := by
  have step : (0 : ℚ) < 2 ^ (k - 52 : ℤ) := by positivity
  have half : ((2 ^ k : ℕ) : ℚ) * 2 ^ (-53 : ℤ) = 2 ^ (k - 52 : ℤ) / 2 := by
    rw [sub_eq_add_neg, zpow_add₀ two_ne_zero, zpow_natCast]
    push_cast
    norm_num
    ring
  rw [rounded_of_representable (representable_two_pow_mul_greatest hk)]
  have sum : 1 + ((2 ^ k : ℕ) : ℚ) * (1 - 2 ^ (-53 : ℤ)) =
      (2 ^ k + 1 : ℕ) - 2 ^ (k - 52 : ℤ) / 2 := by
    rw [mul_sub, half]
    push_cast
    ring
  rw [sum]
  have exponent : gridExponent ((2 ^ k + 1 : ℕ) - 2 ^ (k - 52 : ℤ) / 2) = k - 52 := by
    have small : (2 : ℚ) ^ (k - 52 : ℤ) ≤ 1 := zpow_le_one_of_nonpos₀ one_le_two (by omega)
    have least : (1 : ℚ) ≤ 2 ^ k := one_le_pow₀ one_le_two
    push_cast
    apply gridExponent_of_binade
    · linarith
    · rw [pow_succ]
      linarith
  have tie : ((2 ^ k + 1 : ℕ) - 2 ^ (k - 52 : ℤ) / 2) / 2 ^ (k - 52 : ℤ) =
      ((2 ^ k + 1 : ℕ) * 2 ^ (52 - k) : ℤ) - (1 / 2 : ℚ) := by
    rw [natCast_eq_mul_step hk, sub_div, mul_div_cancel_right₀ _ step.ne']
    congr 1
    field_simp
  have even : Even (((2 ^ k + 1 : ℕ) : ℤ) * 2 ^ (52 - k)) :=
    (even_two.pow_of_ne_zero (by omega)).mul_left _
  rw [rounded, grid, exponent, tie, nearestEven_eq_of_near _ fun _ => even,
    ← natCast_eq_mul_step hk]
  rw [sub_sub_cancel_left, abs_neg]
  norm_num

end Product

/-- The greatest float below one. -/
def belowOne : Float := Float.ofBits 0x3fefffffffffffff

/-- The one value that takes a die past its last face, and the dice that it does so with. -/
def Overshoots (sides : UInt32) (r : Float) : Prop :=
  sides.toNat = 2 ^ sides.toNat.log2 ∧ r = belowOne

instance (sides : UInt32) : DecidablePred (Overshoots sides) :=
  fun r => inferInstanceAs (Decidable (sides.toNat = 2 ^ sides.toNat.log2 ∧ r = belowOne))

section Draw

variable {sides : UInt32} {r : Float} {q : ℚ}

theorem value?_belowOne : value? belowOne = some (1 - 2 ^ (-53 : ℤ)) := by
  have reading : ofFloat belowOne = finite false (2 ^ 53 - 1) (-53) := by decide
  rw [value?, reading, toRat?, signed_false, Option.some.injEq]
  norm_num

/-- On a die the range has as many integers as there are sides. -/
theorem toNat_draw (hr : value? r = some q) :
    (draw 1 sides r).toNat =
      min (2 ^ 32 - 1) ⌊rounded (1 + rounded (sides.toNat * q))⌋.toNat := by
  rw [toNat_draw_eq hr, roundedPoint, UInt32.toNat_one, Nat.cast_one, add_sub_cancel_right]

theorem one_le_draw (lower : 0.0 ≤ r) (upper : r < 1.0) : 1 ≤ draw 1 sides r := by
  obtain ⟨q, hr, nonneg, below⟩ := exists_value?_of_unit lower upper
  have product : 0 ≤ rounded (sides.toNat * q) := by
    simpa using rounded_mono (show 0 ≤ sides.toNat * q by positivity)
  have one : Representable 1 := by exact_mod_cast representable_natCast (n := 1) (by norm_num)
  have sum : 1 ≤ rounded (1 + rounded (sides.toNat * q)) := le_rounded one (by linarith)
  have floor : 1 ≤ ⌊rounded (1 + rounded (sides.toNat * q))⌋ :=
    Int.le_floor.mpr (by exact_mod_cast sum)
  rw [UInt32.le_iff_toNat_le, toNat_draw hr, UInt32.toNat_one]
  omega

theorem toNat_pos_of_ne_zero (positive : sides ≠ 0) : 0 < sides.toNat :=
  Nat.pos_of_ne_zero fun zero => positive (UInt32.toNat_inj.mp zero)

theorem log2_lt (positive : sides ≠ 0) : sides.toNat.log2 < 32 :=
  (Nat.log2_lt (toNat_pos_of_ne_zero positive).ne').mpr sides.toNat_lt

/-- Unless the value overshoots, the die shows one of its faces. -/
theorem draw_le (positive : sides ≠ 0) (lower : 0.0 ≤ r) (upper : r < 1.0)
    (other : ¬ Overshoots sides r) : draw 1 sides r ≤ sides := by
  obtain ⟨q, hr, nonneg, below⟩ := exists_value?_of_unit lower upper
  have bits := log2_lt positive
  have least : 2 ^ sides.toNat.log2 ≤ sides.toNat :=
    Nat.log2_self_le (toNat_pos_of_ne_zero positive).ne'
  have product := rounded_mul_le (by omega) least Nat.lt_log2_self (representable_of_value? hr)
    below (by
      intro greatest power
      rw [greatest] at hr
      exact other ⟨power, eq_of_value?_eq hr value?_belowOne (by norm_num)⟩)
  have sum := rounded_one_add_lt (by omega) Nat.lt_log2_self product
  have floor : ⌊rounded (1 + rounded (sides.toNat * q))⌋ < (sides.toNat + 1 : ℤ) :=
    Int.floor_lt.mpr (by exact_mod_cast sum)
  rw [UInt32.le_iff_toNat_le, toNat_draw hr]
  omega

theorem toNat_draw_of_overshoots (positive : sides ≠ 0) (h : Overshoots sides r) :
    (draw 1 sides r).toNat = sides.toNat + 1 := by
  obtain ⟨power, rfl⟩ := h
  have bits := log2_lt positive
  have small : 2 ^ sides.toNat.log2 ≤ 2 ^ 31 := Nat.pow_le_pow_right (by norm_num) (by omega)
  have tie := rounded_one_add_two_pow (k := sides.toNat.log2) (by omega)
  rw [← power] at tie small
  rw [toNat_draw value?_belowOne, tie, Int.floor_natCast,
    Int.toNat_natCast]
  omega

theorem isGreatest_belowOne : IsGreatest {x : Float | x < 1.0} belowOne := by
  refine ⟨by decide, fun x hx => ?_⟩
  rcases le_cases (le_of_lt_float hx) with infinite | infinite | ⟨p, -, value, -, -⟩
  · exact le_of_infinite infinite value?_belowOne
  · exact absurd infinite (by decide)
  · have below := (lt_iff_of_value? value value?_one).mp hx
    rw [le_iff_of_value? value value?_belowOne]
    rcases (representable_of_value? value).le_of_lt_one below with rfl | early
    · exact le_rfl
    · norm_num at early ⊢
      linarith

theorem isGreatest_iff (hr : value? r = some q) (below : q < 1) :
    IsGreatest {x : Float | x < 1.0} r ↔ r = belowOne := by
  constructor
  · rintro ⟨-, greatest⟩
    have above := (le_iff_of_value? value?_belowOne hr).mp (greatest isGreatest_belowOne.1)
    rcases (representable_of_value? hr).le_of_lt_one below with rfl | early
    · exact eq_of_value?_eq hr value?_belowOne (by norm_num)
    · norm_num at above early
      linarith
  · rintro rfl
    exact isGreatest_belowOne

theorem overshoots_iff : Overshoots sides r ↔ sides.toNat.isPowerOfTwo ∧ r = belowOne := by
  unfold Overshoots
  refine and_congr_left' ⟨fun power => ⟨_, power⟩, ?_⟩
  rintro ⟨k, power⟩
  rw [power, Nat.log2_two_pow]

/-- A value of `[0, 1)` leads to a face of the die unless it is the greatest float below one,
which is `1 - 2 ^ -53`, and the number of sides is a power of two. In that case it leads to the
number after the last face. -/
theorem draw_on_die_iff (positive : sides ≠ 0) (lower : 0.0 ≤ r) (upper : r < 1.0) :
    (1 ≤ draw 1 sides r ∧ draw 1 sides r ≤ sides ↔
      ¬ (IsGreatest {x : Float | x < 1.0} r ∧ sides.toNat.isPowerOfTwo)) ∧
    (IsGreatest {x : Float | x < 1.0} r ∧ sides.toNat.isPowerOfTwo →
      (draw 1 sides r).toNat = sides.toNat + 1) ∧
    (IsGreatest {x : Float | x < 1.0} r ↔ value? r = some (1 - 2 ^ (-53 : ℤ))) := by
  obtain ⟨q, hr, -, below⟩ := exists_value?_of_unit lower upper
  have greatest := isGreatest_iff hr below
  rw [greatest, and_comm (a := r = belowOne), ← overshoots_iff]
  refine ⟨⟨?_, fun other => ⟨one_le_draw lower upper, draw_le positive lower upper other⟩⟩,
    toNat_draw_of_overshoots positive, ?_, fun h => eq_of_value?_eq h value?_belowOne (by norm_num)⟩
  · rintro ⟨-, onDie⟩ overshoots
    have past := toNat_draw_of_overshoots positive overshoots
    rw [UInt32.le_iff_toNat_le] at onDie
    omega
  · rintro rfl
    exact value?_belowOne

/-- The greatest value stays on a die of six sides and leaves one of eight. -/
theorem draw_on_die_of_belowOne :
    draw 1 6 belowOne ≤ 6 ∧ (draw 1 8 belowOne).toNat = 9 := by
  have six := @draw_on_die_iff 6 belowOne (by decide) (by decide) (by decide)
  have eight := @draw_on_die_iff 8 belowOne (by decide) (by decide) (by decide)
  have other : ¬ ((6 : UInt32).toNat.isPowerOfTwo ∧ belowOne = belowOne) :=
    overshoots_iff.not.mp (by decide)
  exact ⟨(six.1.mpr fun h => other ⟨h.2, rfl⟩).2, eight.2.1 ⟨isGreatest_belowOne, 3, rfl⟩⟩

end Draw

end DiceSampling
