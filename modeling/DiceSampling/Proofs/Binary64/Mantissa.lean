/-
# Rounding of mantissas

Float operations work on a mantissa, an exponent and two residual bits that say how
the exact result compares with the mantissa and with the mantissa and a half.
`Holds` gives the residual bits their meaning.  Shifting keeps it, and so the
rounded mantissa is the nearest integer to the exact number in steps of its grid:
the operation `roundWithAccuracy` computes `rounded`.
-/

import DiceSampling.Proofs.Binary64.Rounding

namespace DiceSampling.Binary64

open Float.Model (Format UnpackedFloat totalExponent)
open Float.Model.UnpackedFloat

/-- An exact number lies where a mantissa with its residual bits says. -/
def Holds (em : ExtendedMantissa) (x : ℚ) : Prop :=
  match em.roundBit, em.stickyBit with
  | false, false => x = em.mantissa
  | false, true => em.mantissa < x ∧ x < em.mantissa + 1 / 2
  | true, false => x = em.mantissa + 1 / 2
  | true, true => em.mantissa + 1 / 2 < x ∧ x < em.mantissa + 1

namespace Holds

variable {em : ExtendedMantissa} {x : ℚ}

theorem exact (m : ℕ) : Holds (.ofMantissaAndAccuracy m .exact) m := rfl

theorem belowHalf {m : ℕ} (lower : m < x) (upper : x < m + 1 / 2) :
    Holds (.ofMantissaAndAccuracy m (.inexact .lt)) x := ⟨lower, upper⟩

theorem aboveHalf {m : ℕ} (lower : m + 1 / 2 < x) (upper : x < m + 1) :
    Holds (.ofMantissaAndAccuracy m (.inexact .gt)) x := ⟨lower, upper⟩

theorem mantissa_le (h : Holds em x) : em.mantissa ≤ x := by
  obtain ⟨m, r, s⟩ := em
  cases r <;> cases s <;> simp only [Holds] at h ⊢ <;> linarith

theorem lt_mantissa_add_one (h : Holds em x) : x < em.mantissa + 1 := by
  obtain ⟨m, r, s⟩ := em
  cases r <;> cases s <;> simp only [Holds] at h ⊢ <;> linarith

/-- The residual bits decide as the nearest integer does. -/
theorem roundedMantissa_eq (h : Holds em x) : (em.roundedMantissa : ℤ) = nearestEven x := by
  symm
  obtain ⟨m, r, s⟩ := em
  cases r <;> cases s <;> simp only [Holds] at h <;>
    simp only [ExtendedMantissa.roundedMantissa, ExtendedMantissa.accuracy,
      Accuracy.roundToNearestEven]
  · rw [h]
    exact nearestEven_intCast m
  · exact nearestEven_eq_of_lt (by push_cast; rw [abs_lt]; constructor <;> linarith)
  · -- Halfway, the last bit of the mantissa is added to it.
    subst h
    apply nearestEven_eq_of_near
    · rcases Nat.mod_two_eq_zero_or_one m with bit | bit <;> rw [bit, abs_le] <;> push_cast <;>
        constructor <;> linarith
    · intro _
      rw [Int.even_iff]
      omega
  · exact nearestEven_eq_of_lt (by push_cast; rw [abs_lt]; constructor <;> linarith)

/-- Dropping the last bit of the mantissa halves the number. -/
theorem shiftRightOne (h : Holds em x) : Holds em.shiftRightOne (x / 2) := by
  obtain ⟨m, r, s⟩ := em
  have parts : (m : ℚ) = 2 * (m / 2 : ℕ) + (m % 2 : ℕ) := by
    exact_mod_cast (Nat.div_add_mod m 2).symm
  rcases Nat.mod_two_eq_zero_or_one m with bit | bit <;> rw [bit] at parts <;>
    cases r <;> cases s <;>
    simp only [Holds, ExtendedMantissa.shiftRightOne, bit, parts, Bool.or_true, Bool.or_false,
      bne_self_eq_false, show ((1 : ℕ) != 0) = true from rfl] at h ⊢ <;>
    push_cast at h ⊢
  all_goals first | linarith | exact ⟨by linarith, by linarith⟩

theorem shiftRight (h : Holds em x) (n : ℕ) : Holds (em >>> n) (x / 2 ^ n) := by
  change Holds (n.repeat ExtendedMantissa.shiftRightOne em) _
  induction n with
  | zero =>
      rw [pow_zero, div_one]
      exact h
  | succ n ih =>
      rw [pow_succ, ← div_div]
      exact ih.shiftRightOne

end Holds

/-- The mantissas and exponents that floats have, without an upper bound on the exponent. -/
structure Normalized (mantissa : ℕ) (exponent : ℤ) : Prop where
  mantissa_lt : mantissa < 2 ^ 53
  le_exponent : -1074 ≤ exponent
  normal_or_least : 2 ^ 52 ≤ mantissa ∨ exponent = -1074

/-- The float of a sign, a mantissa and an exponent. -/
def ofParts (s : Sign) (m : ℕ) (e : ℤ) : UnpackedFloat :=
  if h : m = 0 then .zero s else .finite s m e (Nat.pos_of_ne_zero h)

theorem ofParts_zero (s : Sign) (e : ℤ) : ofParts s 0 e = .zero s := rfl

theorem ofParts_of_ne_zero (s : Sign) {m : ℕ} (e : ℤ) (hm : m ≠ 0) :
    ofParts s m e = .finite s m e (Nat.pos_of_ne_zero hm) := dif_neg hm

theorem targetExponent_eq (m : ℕ) (e : ℤ) :
    Format.binary64.targetExponent (totalExponent m e) = max (m.log2 + e - 52) (-1074) := by
  simp only [Format.targetExponent, totalExponent, show Format.binary64.mantissaBits = 53 from rfl,
    show Format.binary64.minExponent = -1074 from rfl]
  congr 1
  push_cast
  ring

/-- The exponent that rounding aims at is that of the grid. -/
theorem targetExponent_eq_gridExponent {m : ℕ} {e : ℤ} {x : ℚ} (hm : m ≠ 0)
    (lower : m ≤ x / 2 ^ e) (upper : x / 2 ^ e < m + 1) :
    Format.binary64.targetExponent (totalExponent m e) = gridExponent x := by
  have positive : (0 : ℚ) < 2 ^ e := by positivity
  rw [le_div_iff₀ positive] at lower
  rw [div_lt_iff₀ positive] at upper
  have hx : 0 < x := lt_of_lt_of_le (by positivity) lower
  have low : (2 : ℚ) ^ m.log2 ≤ m := by exact_mod_cast Nat.log2_self_le hm
  have high : (m : ℚ) + 1 ≤ 2 ^ (m.log2 + 1) := by exact_mod_cast Nat.lt_log2_self
  have log : Int.log 2 |x| = m.log2 + e := by
    rw [abs_of_pos hx]
    apply le_antisymm
    · rw [← Int.lt_add_one_iff]
      apply (Int.lt_zpow_iff_log_lt one_lt_two hx).mp
      push_cast
      rw [add_right_comm, zpow_add₀ two_ne_zero]
      exact upper.trans_le (mul_le_mul_of_nonneg_right (by exact_mod_cast high) positive.le)
    · apply (Int.zpow_le_iff_le_log one_lt_two hx).mp
      push_cast
      rw [zpow_add₀ two_ne_zero, zpow_natCast]
      exact (mul_le_mul_of_nonneg_right low positive.le).trans lower
  rw [targetExponent_eq, gridExponent, log]

/-- Below the target the bulk of the shift lands on the grid. -/
theorem shiftToExponent_eq {m : ℕ} {e t : ℤ} {a : Accuracy} (placed : e ≤ t) :
    shiftToExponent m e a t =
      (ExtendedMantissa.ofMantissaAndAccuracy m a >>> (t - e).toNat, t) := by
  simp only [shiftToExponent, Prod.mk.injEq, true_and]
  omega

/-- A mantissa that rounding has carried to 54 bits is shifted once more, and no other. -/
theorem shiftToTargetExponent_exact {n : ℕ} {t : ℤ} (bound : n ≤ 2 ^ 53) (ht : -1074 ≤ t) :
    shiftToTargetExponent .binary64 n t .exact =
      if n < 2 ^ 53 then (⟨n, false, false⟩, t) else (⟨2 ^ 52, false, false⟩, t + 1) := by
  unfold shiftToTargetExponent
  rw [targetExponent_eq]
  split
  · rename_i small
    have log : n.log2 ≤ 52 := by
      rcases eq_or_ne n 0 with rfl | hn
      · decide
      · exact Nat.lt_succ_iff.mp ((Nat.log2_lt hn).mpr small)
    have noShift : (max ((n.log2 : ℤ) + t - 52) (-1074) - t).toNat = 0 := by omega
    simp only [shiftToExponent, noShift, Nat.cast_zero, add_zero]
    rfl
  · rename_i large
    obtain rfl : n = 2 ^ 53 := by omega
    rw [show (2 ^ 53 : ℕ).log2 = 53 from Nat.log2_two_pow,
      shiftToExponent_eq (show t ≤ max ((53 : ℕ) + t - 52) (-1074) by omega),
      show max (((53 : ℕ) : ℤ) + t - 52) (-1074) = t + 1 by omega,
      show (t + 1 - t).toNat = 1 by omega]
    rfl

theorem mantissa_ofMantissaAndAccuracy (m : ℕ) (a : Accuracy) :
    (ExtendedMantissa.ofMantissaAndAccuracy m a).mantissa = m := by
  cases a with
  | exact => rfl
  | inexact o => cases o <;> rfl

/-- The nearest multiple of the grid is that of a normalized mantissa, or its mantissa is
the first number of 54 bits. -/
theorem normal_or_least_of_eq_nearestEven {n : ℕ} {x : ℚ} (hx : 0 < x)
    (hn : (n : ℤ) = nearestEven (x / grid x)) : 2 ^ 52 ≤ n ∨ gridExponent x = -1074 := by
  rcases (neg_1074_le_gridExponent x).lt_or_eq with normal | subnormal
  · left
    have h := grid_le_abs hx.ne' normal
    rw [abs_of_pos hx, ← le_div_iff₀ (grid_pos x)] at h
    have mono := nearestEven_mono (show ((2 ^ 52 : ℤ) : ℚ) ≤ x / grid x by exact_mod_cast h)
    rw [nearestEven_intCast, ← hn] at mono
    exact_mod_cast mono
  · exact Or.inr subnormal.symm

/-- Shifted to its grid, a mantissa rounds to the nearest multiple of it. -/
theorem roundedMantissa_shift_eq {em : ExtendedMantissa} {e : ℤ} {x : ℚ}
    (holds : Holds em (x / 2 ^ e)) (placed : e ≤ gridExponent x) :
    ((em >>> (gridExponent x - e).toNat).roundedMantissa : ℤ) = nearestEven (x / grid x) := by
  have scaled : x / 2 ^ e / 2 ^ (gridExponent x - e).toNat = x / grid x := by
    rw [div_div, ← zpow_natCast, ← zpow_add₀ two_ne_zero, grid]
    congr 2
    omega
  rw [← scaled]
  exact (holds.shiftRight (gridExponent x - e).toNat).roundedMantissa_eq

/-- A mantissa that was lost whole is rounded on the finest grid. -/
theorem targetExponent_zero {e : ℤ} {x : ℚ} (he : e ≤ -1074) (hx : 0 < x) (small : x < 2 ^ e) :
    Format.binary64.targetExponent (totalExponent 0 e) = gridExponent x := by
  have least : (2 : ℚ) ^ e ≤ 2 ^ (-1074 + 53 : ℤ) := zpow_le_zpow_right₀ one_le_two (by omega)
  have fine : gridExponent x ≤ -1074 :=
    gridExponent_le hx.ne' le_rfl (by rw [abs_of_pos hx]; exact small.trans_le least)
  rw [targetExponent_eq, fine.antisymm (neg_1074_le_gridExponent x)]
  simp only [Nat.log2_zero, Nat.cast_zero, zero_add]
  omega

/-- Rounding a mantissa that aims at the grid of the exact number gives the nearest float of
that grid, normalized. -/
theorem roundWithAccuracy_of_target (s : Sign) {m : ℕ} {e : ℤ} {a : Accuracy} {x : ℚ} (hx : 0 < x)
    (holds : Holds (.ofMantissaAndAccuracy m a) (x / 2 ^ e)) (placed : e ≤ gridExponent x)
    (target : Format.binary64.targetExponent (totalExponent m e) = gridExponent x) :
    ∃ (n : ℕ) (t : ℤ), roundWithAccuracy .binary64 s m e a = ofParts s n t ∧
      Normalized n t ∧ rounded x = n * 2 ^ t := by
  have steps := roundedMantissa_shift_eq holds placed
  have least := neg_1074_le_gridExponent x
  unfold roundWithAccuracy shiftToTargetExponent
  rw [target, shiftToExponent_eq placed]
  dsimp only
  generalize (ExtendedMantissa.ofMantissaAndAccuracy m a >>>
    (gridExponent x - e).toNat).roundedMantissa = n at steps ⊢
  have bound : n ≤ 2 ^ 53 := by
    have h := abs_nearestEven_div_grid_le x
    rw [← steps] at h
    exact_mod_cast h
  have value : rounded x = n * 2 ^ gridExponent x := by
    rw [rounded, ← steps]
    rfl
  have carried := shiftToTargetExponent_exact bound least
  unfold shiftToTargetExponent at carried
  rw [carried]
  by_cases small : n < 2 ^ 53
  · rw [if_pos small]
    exact ⟨n, gridExponent x, rfl, ⟨small, least, normal_or_least_of_eq_nearestEven hx steps⟩,
      value⟩
  · rw [if_neg small]
    obtain rfl : n = 2 ^ 53 := by omega
    refine ⟨2 ^ 52, gridExponent x + 1, rfl, ⟨by norm_num, by omega, Or.inl le_rfl⟩, ?_⟩
    rw [value, zpow_add_one₀ two_ne_zero]
    push_cast
    ring

/-- Rounding a mantissa of the model gives the nearest float of its grid, normalized. -/
theorem roundWithAccuracy_eq (s : Sign) {m : ℕ} {e : ℤ} {a : Accuracy} {x : ℚ} (hm : m ≠ 0)
    (holds : Holds (.ofMantissaAndAccuracy m a) (x / 2 ^ e)) (placed : e ≤ gridExponent x) :
    ∃ (n : ℕ) (t : ℤ), roundWithAccuracy .binary64 s m e a = ofParts s n t ∧
      Normalized n t ∧ rounded x = n * 2 ^ t := by
  have low := holds.mantissa_le
  have high := holds.lt_mantissa_add_one
  rw [mantissa_ofMantissaAndAccuracy] at low high
  have hx : 0 < x := by
    have : 0 < x / 2 ^ e := lt_of_lt_of_le (by positivity) low
    exact (div_pos_iff_of_pos_right (by positivity)).mp this
  exact roundWithAccuracy_of_target s hx holds placed (targetExponent_eq_gridExponent hm low high)

end DiceSampling.Binary64
