/-
# Division of floats

The quotient of two mantissas is cut off to an integer, and the remainder says on which
side of half a unit the exact quotient lies.  The cut comes late enough for rounding to
find all the bits it needs, or below the finest grid, where the integer may be zero.
-/

import DiceSampling.Proofs.Binary64.Conversion

namespace DiceSampling.Binary64

open Float.Model (Format UnpackedFloat totalExponent)
open Float.Model.UnpackedFloat

/-- The remainder of a division says where the exact quotient lies. -/
theorem Holds.quotient (a : ℕ) {b : ℕ} (hb : b ≠ 0) :
    Holds (.ofMantissaAndAccuracy (a / b) (accuracyOfFraction (a % b) b)) (a / b) := by
  have positive : (0 : ℚ) < b := by positivity
  have split : (a : ℚ) / b = (a / b : ℕ) + (a % b : ℕ) / b := by
    rw [div_eq_iff positive.ne', add_mul, div_mul_cancel₀ _ positive.ne', mul_comm]
    exact_mod_cast (Nat.div_add_mod a b).symm
  have below : ((a % b : ℕ) : ℚ) / b < 1 := by
    rw [div_lt_one positive]
    exact_mod_cast Nat.mod_lt a (Nat.pos_of_ne_zero hb)
  unfold accuracyOfFraction
  rw [split]
  rcases eq_or_ne (a % b) 0 with exact | inexact
  · rw [if_pos exact, exact, Nat.cast_zero, zero_div, add_zero]
    exact Holds.exact _
  have least : (0 : ℚ) < (a % b : ℕ) / b := by positivity
  rw [if_neg inexact]
  rcases lt_trichotomy (2 * (a % b)) b with less | half | more
  · have less' : ((a % b : ℕ) : ℚ) / b < 1 / 2 := by
      rw [div_lt_iff₀ positive]
      have : (2 * (a % b : ℕ) : ℚ) < b := by exact_mod_cast less
      linarith
    rw [Nat.compare_eq_lt.mpr less]
    exact Holds.belowHalf (by linarith) (by linarith)
  · have half' : ((a % b : ℕ) : ℚ) / b = 1 / 2 := by
      rw [div_eq_iff positive.ne']
      have : (2 * (a % b : ℕ) : ℚ) = b := by exact_mod_cast half
      linarith
    rw [Nat.compare_eq_eq.mpr half, half']
    rfl
  · have more' : (1 : ℚ) / 2 < (a % b : ℕ) / b := by
      rw [lt_div_iff₀ positive]
      have : (b : ℚ) < 2 * (a % b : ℕ) := by exact_mod_cast more
      linarith
    rw [Nat.compare_eq_gt.mpr more]
    exact Holds.aboveHalf (by linarith) (by linarith)

theorem isMinus_div (s t : Sign) : isMinus (s / t) = (isMinus s != isMinus t) := by
  cases s <;> cases t <;> rfl

theorem signed_div_signed (s t : Sign) (a b : ℚ) :
    signed (isMinus s) a / signed (isMinus t) b = signed (isMinus (s / t)) (a / b) := by
  rw [isMinus_div]
  cases isMinus s <;> cases isMinus t <;> simp [div_neg, neg_div]

section Quotient

variable {m n : ℕ} {e f : ℤ}

/-- The exponent that a quotient is cut off at. -/
def quotientExponent (m : ℕ) (e : ℤ) (n : ℕ) (f : ℤ) : ℤ :=
  min (e - f) (max (m.log2 + e - (n.log2 + f) - 53) (-1074))

theorem divCore_eq (m : ℕ) (e : ℤ) (n : ℕ) (f : ℤ) :
    divCore .binary64 m e n f =
      (m <<< (e - f - quotientExponent m e n f).toNat / n, quotientExponent m e n f,
        accuracyOfFraction (m <<< (e - f - quotientExponent m e n f).toNat % n) n) := by
  have target : min (e - f) (Format.binary64.targetExponent
      (totalExponent m e - totalExponent n f)) = quotientExponent m e n f := by
    simp only [Format.targetExponent, totalExponent, quotientExponent,
      show Format.binary64.mantissaBits = 53 from rfl,
      show Format.binary64.minExponent = -1074 from rfl]
    omega
  unfold divCore
  rw [target]

/-- The longer mantissa is the exact quotient in steps of the exponent. -/
theorem quotient_eq (hn : n ≠ 0) :
    ((m <<< (e - f - quotientExponent m e n f).toNat : ℕ) : ℚ) / n =
      m * 2 ^ e / (n * 2 ^ f) / 2 ^ quotientExponent m e n f := by
  have shift : e - f - quotientExponent m e n f =
      ((e - f - quotientExponent m e n f).toNat : ℤ) := by
    unfold quotientExponent
    omega
  have power : (2 : ℚ) ^ (e - f - quotientExponent m e n f).toNat =
      2 ^ e / 2 ^ f / 2 ^ quotientExponent m e n f := by
    rw [← zpow_natCast, ← shift, zpow_sub₀ two_ne_zero, zpow_sub₀ two_ne_zero]
  rw [Nat.shiftLeft_eq, Nat.cast_mul, Nat.cast_pow, Nat.cast_ofNat, power]
  field_simp

/-- The cut is not above the grid of the quotient. -/
theorem quotientExponent_le (hm : m ≠ 0) (hn : n ≠ 0) :
    quotientExponent m e n f ≤ gridExponent (m * 2 ^ e / (n * 2 ^ f)) := by
  refine (min_le_right _ _).trans (max_le (le_gridExponent ?_) (neg_1074_le_gridExponent _))
  have low : (2 : ℚ) ^ (m.log2 : ℤ) ≤ m := by exact_mod_cast Nat.log2_self_le hm
  have high : (n : ℚ) ≤ 2 ^ ((n.log2 : ℤ) + 1) := by exact_mod_cast (Nat.lt_log2_self (n := n)).le
  rw [abs_of_pos (by positivity), le_div_iff₀ (by positivity)]
  calc
    (2 : ℚ) ^ ((m.log2 : ℤ) + e - (n.log2 + f) - 53 + 52) * (n * 2 ^ f)
      ≤ 2 ^ ((m.log2 : ℤ) + e - (n.log2 + f) - 53 + 52) * (2 ^ ((n.log2 : ℤ) + 1) * 2 ^ f) := by
        gcongr
    _ = 2 ^ (m.log2 : ℤ) * 2 ^ e := by
        rw [← zpow_add₀ two_ne_zero, ← zpow_add₀ two_ne_zero, ← zpow_add₀ two_ne_zero]
        congr 1
        ring
    _ ≤ m * 2 ^ e := by gcongr

/-- Above the finest grid the cut leaves a mantissa. -/
theorem quotient_ne_zero (hm : m ≠ 0) (hn : n ≠ 0) (above : -1074 < quotientExponent m e n f) :
    m <<< (e - f - quotientExponent m e n f).toNat / n ≠ 0 := by
  have bits : n.log2 + 1 ≤ m.log2 + (e - f - quotientExponent m e n f).toNat := by
    unfold quotientExponent at above ⊢
    omega
  rw [Nat.div_ne_zero_iff, Nat.shiftLeft_eq]
  refine ⟨hn, ?_⟩
  calc
    n ≤ 2 ^ (n.log2 + 1) := Nat.lt_log2_self.le
    _ ≤ 2 ^ (m.log2 + (e - f - quotientExponent m e n f).toNat) :=
        Nat.pow_le_pow_right two_pos bits
    _ = 2 ^ m.log2 * 2 ^ (e - f - quotientExponent m e n f).toNat := pow_add _ _ _
    _ ≤ m * 2 ^ (e - f - quotientExponent m e n f).toNat :=
        Nat.mul_le_mul_right _ (Nat.log2_self_le hm)

/-- The cut aims at the grid of the quotient. -/
theorem targetExponent_quotient (hm : m ≠ 0) (hn : n ≠ 0) :
    Format.binary64.targetExponent
        (totalExponent (m <<< (e - f - quotientExponent m e n f).toNat / n)
          (quotientExponent m e n f)) =
      gridExponent (m * 2 ^ e / (n * 2 ^ f)) := by
  have holds := Holds.quotient (m <<< (e - f - quotientExponent m e n f).toNat) hn
  have low := holds.mantissa_le
  have high := holds.lt_mantissa_add_one
  rw [mantissa_ofMantissaAndAccuracy, quotient_eq hn] at low high
  by_cases vanishes : m <<< (e - f - quotientExponent m e n f).toNat / n = 0
  · have fine : quotientExponent m e n f ≤ -1074 := by
      by_contra above
      exact quotient_ne_zero hm hn (not_le.mp above) vanishes
    rw [vanishes, Nat.cast_zero, zero_add, div_lt_one (by positivity)] at high
    rw [vanishes, targetExponent_zero fine (by positivity) high]
  · exact targetExponent_eq_gridExponent vanishes low high

end Quotient

section Operation

variable {x y : Float} {p q : ℚ}

theorem carries_div (hx : value? x = some p) (hy : value? y = some q) (nonzero : q ≠ 0) :
    Carries (x / y) (rounded (p / q)) := by
  obtain ⟨s, m, e, hparts, -, -, rfl⟩ := exists_parts hx
  obtain ⟨s', n, f, hparts', -, -, rfl⟩ := exists_parts hy
  have hn : n ≠ 0 := by
    rintro rfl
    simp at nonzero
  change Carries ⟨Float.Model.pack (div .binary64 x.toModel.unpack y.toModel.unpack)⟩ _
  rw [hparts, hparts', signed_div_signed, ofParts_of_ne_zero s' f hn]
  rcases eq_or_ne m 0 with rfl | hm
  · rw [Nat.cast_zero, zero_mul, zero_div, signed_zero, rounded_zero, ofParts_zero]
    exact carries_zero (s / s')
  rw [ofParts_of_ne_zero s e hm]
  refine carries_rounded ?_
  unfold div
  dsimp only
  rw [divCore_eq]
  refine roundWithAccuracy_of_target _ (by positivity) ?_ (quotientExponent_le hm hn)
    (targetExponent_quotient hm hn)
  rw [← quotient_eq hn]
  exact Holds.quotient _ hn

theorem value?_div (hx : value? x = some p) (hy : value? y = some q) (nonzero : q ≠ 0)
    (bound : |rounded (p / q)| < outOfRange) : value? (x / y) = some (rounded (p / q)) :=
  (carries_div hx hy nonzero).value? bound

/-- What is not a number is packed and read as such. -/
theorem ofFloat_pack_notANumber : ofFloat ⟨Float.Model.pack .notANumber⟩ = nan := by decide

/-- Zero is worked on as a zero of either sign. -/
theorem unpack_of_value?_zero (hx : value? x = some 0) : ∃ s, x.toModel.unpack = .zero s := by
  obtain ⟨s, m, e, hparts, -, -, value⟩ := exists_parts hx
  obtain rfl : m = 0 := by
    by_contra hm
    have magnitude : (0 : ℚ) < m * 2 ^ e := by positivity
    have h := congrArg (|·|) value
    rw [abs_signed, abs_zero, abs_of_pos magnitude] at h
    exact magnitude.ne h
  exact ⟨s, hparts⟩

/-- Zero divided by zero is not a number. -/
theorem ofFloat_zero_div_zero (hx : value? x = some 0) (hy : value? y = some 0) :
    ofFloat (x / y) = nan := by
  obtain ⟨s, hparts⟩ := unpack_of_value?_zero hx
  obtain ⟨s', hparts'⟩ := unpack_of_value?_zero hy
  change ofFloat ⟨Float.Model.pack (div .binary64 x.toModel.unpack y.toModel.unpack)⟩ = _
  rw [hparts, hparts']
  exact ofFloat_pack_notANumber

end Operation

end DiceSampling.Binary64
