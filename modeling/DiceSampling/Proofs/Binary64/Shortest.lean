/-
# The shortest decimal denotes its float

The decimals of a float reach up and down to the middle between it and its neighbours, so
rounding takes each of them back to the float.  Of seventeen digits the last counts for less
than half of such a step, whatever the float.  So the search for the shortest decimal always
finds one, and what it finds is rounded to the float that it started from.
-/

import DiceSampling.Binary64.Shortest
import DiceSampling.Proofs.Binary64.Whole

namespace DiceSampling.Binary64

namespace Ratio

theorem le_value_iff {r : Ratio} (positive : 0 < r.den) (n : ℕ) :
    (n : ℚ) ≤ r.value ↔ n * r.den ≤ r.num := by
  have den : (0 : ℚ) < r.den := by exact_mod_cast positive
  rw [value, le_div_iff₀ den]
  exact_mod_cast Iff.rfl

theorem value_le_iff {r : Ratio} (positive : 0 < r.den) (n : ℕ) :
    r.value ≤ n ↔ r.num ≤ n * r.den := by
  have den : (0 : ℚ) < r.den := by exact_mod_cast positive
  rw [value, div_le_iff₀ den]
  exact_mod_cast Iff.rfl

/-- The nearest integer is at most half a unit away. -/
theorem abs_value_sub_round_le (r : Ratio) (positive : 0 < r.den) (tie : Tie) :
    |r.value - r.round tie| ≤ 1 / 2 := by
  have den : (0 : ℚ) < r.den := by exact_mod_cast positive
  have whole := Nat.div_add_mod r.num r.den
  have part := Nat.mod_lt r.num positive
  have apart (n : ℕ) (lower : 2 * (n * r.den) ≤ 2 * r.num + r.den)
      (upper : 2 * r.num ≤ 2 * (n * r.den) + r.den) : |r.value - n| ≤ 1 / 2 := by
    rw [value, div_sub' den.ne', abs_div, abs_of_pos den, div_le_iff₀ den, abs_le]
    have lower' : 2 * ((n : ℚ) * r.den) ≤ 2 * r.num + r.den := by exact_mod_cast lower
    have upper' : 2 * (r.num : ℚ) ≤ 2 * (n * r.den) + r.den := by exact_mod_cast upper
    constructor <;> linarith
  have swap : r.num / r.den * r.den = r.den * (r.num / r.den) := Nat.mul_comm _ _
  have next : (r.num / r.den + 1) * r.den = r.den * (r.num / r.den) + r.den := by ring
  unfold round
  dsimp only
  split_ifs
  · exact apart _ (by omega) (by omega)
  · exact apart _ (by omega) (by omega)
  · cases tie with
    | up =>
        dsimp only
        exact apart _ (by omega) (by omega)
    | toEven =>
        dsimp only
        rcases Nat.mod_two_eq_zero_or_one (r.num / r.den) with even | odd
        · rw [even, add_zero]
          exact apart _ (by omega) (by omega)
        · rw [odd]
          exact apart _ (by omega) (by omega)

/-- A number is at least the power of ten of its first digit. -/
theorem ten_pow_le_of_length_toDigits {n : ℕ} (positive : 0 < n) :
    10 ^ ((Nat.toDigits 10 n).length - 1) ≤ n := by
  rcases Nat.eq_zero_or_pos ((Nat.toDigits 10 n).length - 1) with single | several
  · rw [single]
    exact positive
  · by_contra small
    have short := (Nat.length_toDigits_le_iff (by decide) several).mpr (not_le.mp small)
    omega

/-- The power of ten that `magnitude` gives is not above the fraction. -/
theorem zpow_magnitude_le_value {r : Ratio} (num : 0 < r.num) (den : 0 < r.den) :
    (10 : ℚ) ^ r.magnitude ≤ r.value := by
  unfold magnitude
  split_ifs with large
  · have whole : 0 < r.num / r.den := Nat.div_pos large den
    have digits := Nat.length_toDigits_pos (b := 10) (n := r.num / r.den)
    have bound := (Nat.le_div_iff_mul_le den).mp (ten_pow_le_of_length_toDigits whole)
    have power := (le_value_iff den _).mpr bound
    push_cast at power
    rwa [← Nat.cast_one, ← Nat.cast_sub digits, zpow_natCast]
  · set digits := Nat.toDigits 10 ((r.den - 1) / r.num) with hdigits
    have short : (r.den - 1) / r.num < 10 ^ digits.length :=
      (Nat.length_toDigits_le_iff (by decide) Nat.length_toDigits_pos).mp le_rfl
    have bound : r.den ≤ 10 ^ digits.length * r.num := by
      have strict := (Nat.div_lt_iff_lt_mul num).mp short
      omega
    have den' : (0 : ℚ) < r.den := by exact_mod_cast den
    rw [zpow_neg, zpow_natCast, value, inv_le_iff_one_le_mul₀ (by positivity), ← mul_div_right_comm,
      one_le_div den', mul_comm]
    exact_mod_cast bound

end Ratio

section Interval

variable {m d : ℕ} {q k : ℤ}

/-- How far below a float `m * 2 ^ q` its decimals begin, in units of `2 ^ q`. -/
def halfStepBelow (m : ℕ) (q : ℤ) : ℚ := if m = 2 ^ 52 ∧ -1074 < q then 1 / 4 else 1 / 2

theorem interval_eq (hm : m ≠ 0) :
    ((interval m q).1 : ℚ) = 4 * (m - halfStepBelow m q) ∧
      ((interval m q).2 : ℚ) = 4 * (m + 1 / 2) := by
  have positive : 1 ≤ m := Nat.one_le_iff_ne_zero.mpr hm
  unfold interval halfStepBelow
  norm_num only
  split_ifs
  all_goals
    rw [Nat.cast_sub (by omega)]
    push_cast
    constructor <;> ring

/-- The decimals of a float reach from the middle between it and the float before it to the
middle between it and the next one; the ends belong to them if the mantissa is even. -/
theorem denotes_iff (hm : m ≠ 0) :
    denotes m q d k = true ↔
      if m % 2 = 0 then
        m - halfStepBelow m q ≤ d * 10 ^ k / 2 ^ q ∧ (d * 10 ^ k / 2 ^ q : ℚ) ≤ m + 1 / 2
      else m - halfStepBelow m q < d * 10 ^ k / 2 ^ q ∧ (d * 10 ^ k / 2 ^ q : ℚ) < m + 1 / 2 := by
  have den := den_ratio_pos d (2 - q) k
  obtain ⟨low, high⟩ := interval_eq (q := q) hm
  have value : (ratio d (2 - q) k).value = 4 * (d * 10 ^ k / 2 ^ q) := by
    rw [value_ratio, zpow_sub₀ two_ne_zero]
    norm_num
    ring
  unfold denotes
  dsimp only
  split_ifs
  · rw [Bool.and_eq_true, decide_eq_true_iff, decide_eq_true_iff, ← Ratio.le_value_iff den,
      ← Ratio.value_le_iff den, value, low, high, mul_le_mul_iff_right₀ four_pos,
      mul_le_mul_iff_right₀ four_pos]
  · rw [Bool.and_eq_true, decide_eq_true_iff, decide_eq_true_iff, ← not_le, ← not_le,
      ← Ratio.value_le_iff den, ← Ratio.le_value_iff den, not_le, not_le, value, low, high,
      mul_lt_mul_iff_right₀ four_pos, mul_lt_mul_iff_right₀ four_pos]

theorem halfStepBelow_bounds (m : ℕ) (q : ℤ) :
    1 / 4 ≤ halfStepBelow m q ∧ halfStepBelow m q ≤ 1 / 2 := by
  unfold halfStepBelow
  split_ifs <;> norm_num

/-- A number is rounded in steps of its own binade, halfway cases to the even step. -/
theorem rounded_mul_zpow {z : ℚ} {n e : ℤ} (he : -1074 ≤ e) (positive : 0 < z) (short : z < 2 ^ 53)
    (normal : 2 ^ 52 ≤ z ∨ e = -1074) (near : |z - n| ≤ 1 / 2) (tie : |z - n| = 1 / 2 → Even n) :
    rounded (z * 2 ^ e) = n * 2 ^ e := by
  have unit : (0 : ℚ) < 2 ^ e := by positivity
  have scaled (t : ℕ) : (2 : ℚ) ^ (e + t) = 2 ^ t * 2 ^ e := by
    rw [zpow_add₀ two_ne_zero, zpow_natCast, mul_comm]
  have own : gridExponent (z * 2 ^ e) = e := by
    apply le_antisymm
    · refine gridExponent_le (mul_pos positive unit).ne' he ?_
      rw [abs_of_pos (mul_pos positive unit), show (53 : ℤ) = (53 : ℕ) from rfl, scaled]
      gcongr
    · rcases normal with large | rfl
      · apply le_gridExponent
        rw [abs_of_pos (mul_pos positive unit), show (52 : ℤ) = (52 : ℕ) from rfl, scaled]
        gcongr
      · exact neg_1074_le_gridExponent _
  rw [rounded, grid, own, mul_div_cancel_right₀ z unit.ne', nearestEven_eq_of_near near tie]

/-- Below the least mantissa of a binade the steps are half as long. -/
theorem rounded_below_binade {z : ℚ} {e : ℤ} (he : -1074 < e) (near : 2 ^ 52 - 1 / 4 ≤ z)
    (below : z < 2 ^ 52) : rounded (z * 2 ^ e) = 2 ^ 52 * 2 ^ e := by
  have halved (w : ℚ) : w * 2 ^ e = 2 * w * 2 ^ (e - 1) := by
    rw [zpow_sub_one₀ two_ne_zero]
    ring
  have steps := rounded_mul_zpow (z := 2 * z) (n := 2 ^ 53) (e := e - 1) (by omega) (by linarith)
    (by linarith) (.inl (by linarith))
    (by
      push_cast
      rw [abs_le]
      constructor <;> linarith)
    fun _ => by decide
  rw [halved z, steps, halved]
  norm_num

/-- A decimal of a float is rounded to it. -/
theorem rounded_of_denotes (h : Normalized m q) (hm : m ≠ 0) (hd : denotes m q d k = true) :
    rounded (d * 10 ^ k) = m * 2 ^ q := by
  have unit : (0 : ℚ) < 2 ^ q := by positivity
  obtain ⟨-, most⟩ := halfStepBelow_bounds m q
  have large : (1 : ℚ) ≤ m := by exact_mod_cast Nat.one_le_iff_ne_zero.mpr hm
  have short : (m : ℚ) + 1 ≤ 2 ^ 53 := by exact_mod_cast h.mantissa_lt
  rw [denotes_iff hm] at hd
  generalize (d * 10 ^ k : ℚ) = x at hd ⊢
  obtain ⟨z, rfl⟩ : ∃ z, x = z * 2 ^ q := ⟨x / 2 ^ q, (div_mul_cancel₀ x unit.ne').symm⟩
  rw [mul_div_cancel_right₀ z unit.ne'] at hd
  have lower : m - halfStepBelow m q ≤ z := by
    split_ifs at hd
    exacts [hd.1, hd.1.le]
  have upper : z ≤ m + 1 / 2 := by
    split_ifs at hd
    exacts [hd.2, hd.2.le]
  by_cases below : z < 2 ^ 52 ∧ -1074 < q
  · have boundary : m = 2 ^ 52 := by
      have normal := h.normal_or_least.resolve_right below.2.ne'
      have bound : (m : ℚ) < 2 ^ 52 + 1 := by linarith
      have bound' : m < 2 ^ 52 + 1 := by exact_mod_cast bound
      omega
    rw [halfStepBelow, if_pos ⟨boundary, below.2⟩, boundary] at lower
    rw [boundary, rounded_below_binade below.2 (by exact_mod_cast lower) below.1]
    norm_num
  · refine rounded_mul_zpow (n := m) h.le_exponent (by linarith) (by linarith) ?_ ?_ ?_
    · rcases h.le_exponent.eq_or_lt with lowest | above
      · exact .inr lowest.symm
      · exact .inl (not_lt.mp fun small => below ⟨small, above⟩)
    · rw [Int.cast_natCast, abs_le]
      constructor <;> linarith
    · intro tie
      rw [Int.cast_natCast] at tie
      rw [Int.even_coe_nat, Nat.even_iff]
      by_contra odd
      rw [if_neg odd] at hd
      rcases eq_or_eq_neg_of_abs_eq tie with above | below <;> linarith

/-- What is nearer to a float than half a step is one of its decimals. -/
theorem denotes_of_near (hm : m ≠ 0) (near : |(m : ℚ) - d * 10 ^ k / 2 ^ q| < halfStepBelow m q) :
    denotes m q d k = true := by
  obtain ⟨-, most⟩ := halfStepBelow_bounds m q
  obtain ⟨lower, upper⟩ := abs_lt.mp near
  rw [denotes_iff hm]
  split_ifs <;> constructor <;> linarith

end Interval

section Search

variable {m : ℕ} {q : ℤ}

/-- Half a unit of the last of seventeen digits is less than half a step. -/
theorem div_ten_pow_lt_halfStepBelow (h : Normalized m q) :
    (m : ℚ) / 10 ^ 16 / 2 < halfStepBelow m q := by
  have short : (m : ℚ) < 2 ^ 53 := by exact_mod_cast h.mantissa_lt
  unfold halfStepBelow
  split_ifs with boundary
  · rw [boundary.1]
    norm_num
  · linarith

/-- The last of seventeen digits counts for a small part of the float. -/
theorem last_digit_le (hm : m ≠ 0) :
    (10 : ℚ) ^ ((ratio m q 0).magnitude - 16) * 10 ^ 16 ≤ m * 2 ^ q := by
  have num : 0 < (ratio m q 0).num := by
    simp only [ratio, Nat.pow_eq]
    positivity
  have magnitude := Ratio.zpow_magnitude_le_value num (den_ratio_pos m q 0)
  rw [value_ratio, zpow_zero, mul_one] at magnitude
  rw [← zpow_natCast, ← zpow_add₀ (by norm_num)]
  simpa using magnitude

/-- With seventeen digits the nearest decimal is one of the float. -/
theorem exists_nearestOn_eq_some (h : Normalized m q) (hm : m ≠ 0) :
    ∃ d, nearestOn m q ((ratio m q 0).magnitude - 16) = some d := by
  have step := last_digit_le (q := q) hm
  generalize (ratio m q 0).magnitude - 16 = k at step ⊢
  have unit : (0 : ℚ) < 2 ^ q := by positivity
  have close := Ratio.abs_value_sub_round_le (ratio m q (-k)) (den_ratio_pos m q (-k)) .toEven
  rw [value_ratio] at close
  have decimal : denotes m q ((ratio m q (-k)).round .toEven) k = true := by
    refine denotes_of_near hm (lt_of_le_of_lt ?_ (div_ten_pow_lt_halfStepBelow h))
    generalize ((ratio m q (-k)).round .toEven : ℚ) = d at close ⊢
    have scaled : (m : ℚ) - d * 10 ^ k / 2 ^ q =
        (m * 2 ^ q * 10 ^ (-k) - d) * (10 ^ k / 2 ^ q) := by
      rw [zpow_neg]
      field_simp
    rw [scaled, abs_mul, abs_of_pos (show (0 : ℚ) < 10 ^ k / 2 ^ q by positivity)]
    calc
      |(m : ℚ) * 2 ^ q * 10 ^ (-k) - d| * (10 ^ k / 2 ^ q) ≤ 1 / 2 * (10 ^ k / 2 ^ q) := by gcongr
      _ ≤ 1 / 2 * (m / 10 ^ 16) := by
        gcongr 1 / 2 * ?_
        rw [div_le_div_iff₀ unit (by positivity)]
        exact step
      _ = m / 10 ^ 16 / 2 := by ring
  exact ⟨_, List.find?_cons_of_pos (p := fun d => denotes m q d k) decimal⟩

theorem denotes_of_nearestOn {k : ℤ} {d : ℕ} (found : nearestOn m q k = some d) :
    denotes m q d k = true :=
  List.find?_some (p := fun d => denotes m q d k) found

/-- Dropping zeros does not change the number. -/
theorem dropZeros_value (fuel d : ℕ) (k : ℤ) :
    ((dropZeros fuel d k).1 : ℚ) * 10 ^ (dropZeros fuel d k).2 = d * 10 ^ k := by
  induction fuel generalizing d k with
  | zero => rfl
  | succ fuel ih =>
      unfold dropZeros
      split_ifs with zero
      · have split : d = d / 10 * 10 := by omega
        rw [ih, zpow_add_one₀ (by norm_num)]
        nth_rewrite 2 [split]
        push_cast
        ring
      · rfl

/-- The search comes to a decimal of the float. -/
theorem exists_shortest_eq (h : Normalized m q) (hm : m ≠ 0) :
    ∃ d k, denotes m q d k = true ∧ shortest m q = dropZeros 17 d k := by
  obtain ⟨last, found⟩ := exists_nearestOn_eq_some h hm
  unfold shortest
  dsimp only
  set onGrid : ℕ → Option (ℕ × ℤ) := fun digits =>
    (nearestOn m q ((ratio m q 0).magnitude - digits)).map fun d =>
      dropZeros 17 d ((ratio m q 0).magnitude - digits) with honGrid
  have stops : ((List.range 17).findSome? onGrid).isSome := by
    rw [List.findSome?_isSome_iff]
    refine ⟨16, by decide, ?_⟩
    rw [honGrid]
    dsimp only
    rw [Nat.cast_ofNat, found]
    rfl
  obtain ⟨decimal, result⟩ := Option.isSome_iff_exists.mp stops
  obtain ⟨digits, -, onThis⟩ := List.exists_of_findSome?_eq_some result
  obtain ⟨d, nearest, rfl⟩ := Option.map_eq_some_iff.mp onThis
  rw [result]
  exact ⟨d, _, denotes_of_nearestOn nearest, rfl⟩

/-- The shortest decimal of a positive float is rounded to it. -/
theorem rounded_shortest (h : Normalized m q) (hm : m ≠ 0) :
    rounded ((shortest m q).1 * 10 ^ (shortest m q).2) = m * 2 ^ q := by
  obtain ⟨d, k, decimal, search⟩ := exists_shortest_eq h hm
  rw [search, dropZeros_value, rounded_of_denotes h hm decimal]

theorem shortest_fst_ne_zero (h : Normalized m q) (hm : m ≠ 0) : (shortest m q).1 ≠ 0 := by
  intro zero
  have value := rounded_shortest h hm
  rw [zero, Nat.cast_zero, zero_mul, rounded_zero] at value
  have positive : (0 : ℚ) < m * 2 ^ q := by positivity
  exact positive.ne value

end Search

end DiceSampling.Binary64
