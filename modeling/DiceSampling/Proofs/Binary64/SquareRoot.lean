/-
# Square roots of floats

The radicand is lengthened until its integer root has all the bits of a mantissa, and
the remainder says on which side of half a unit the exact root lies; halfway it never
lies.  So the root is on the same side of every representable number as the exact one:
this enclosure stands in for the root itself, which need not be rational.
-/

import DiceSampling.Proofs.Binary64.Division

namespace DiceSampling.Binary64

open Float.Model (Format UnpackedFloat totalExponent)
open Float.Model.UnpackedFloat

section Root

/-- Where the exact root of an integer lies, as a number that is rounded like it. -/
def rootPoint (a : ℕ) : ℚ :=
  if a.sqrt * a.sqrt = a then a.sqrt
  else if a - a.sqrt * a.sqrt ≤ a.sqrt then a.sqrt + 1 / 4
  else a.sqrt + 3 / 4

/-- The accuracy that the remainder of an integer root stands for. -/
def rootAccuracy (a : ℕ) : Accuracy :=
  if a - a.sqrt * a.sqrt = 0 then .exact
  else .inexact (if a - a.sqrt * a.sqrt ≤ a.sqrt then .lt else .gt)

theorem holds_root (a : ℕ) :
    Holds (.ofMantissaAndAccuracy a.sqrt (rootAccuracy a)) (rootPoint a) := by
  have square : a.sqrt * a.sqrt ≤ a := Nat.sqrt_le a
  unfold rootAccuracy rootPoint
  by_cases exact : a.sqrt * a.sqrt = a
  · rw [if_pos (by omega), if_pos exact]
    exact Holds.exact _
  rw [if_neg (by omega), if_neg exact]
  split_ifs
  · exact Holds.belowHalf (by linarith) (by linarith)
  · exact Holds.aboveHalf (by linarith) (by linarith)

variable {a k : ℕ}

theorem le_rootPoint (h : k * k ≤ a) : (k : ℚ) ≤ rootPoint a := by
  have root : (k : ℚ) ≤ a.sqrt := by exact_mod_cast Nat.le_sqrt.mpr h
  unfold rootPoint
  split_ifs <;> linarith

theorem rootPoint_le (h : a ≤ k * k) : rootPoint a ≤ k := by
  have root : a.sqrt ≤ k := by
    rw [← Nat.sqrt_eq k]
    exact Nat.sqrt_le_sqrt h
  unfold rootPoint
  split_ifs with exact low
  · exact_mod_cast root
  · have above : (a.sqrt : ℚ) + 1 ≤ k := by
      exact_mod_cast root.lt_of_ne fun same => exact (le_antisymm (Nat.sqrt_le a) (same ▸ h))
    linarith
  · have above : (a.sqrt : ℚ) + 1 ≤ k := by
      exact_mod_cast root.lt_of_ne fun same => exact (le_antisymm (Nat.sqrt_le a) (same ▸ h))
    linarith

end Root

section Enclosure

variable {m : ℕ} {e : ℤ}

/-- The exponent of the root: with it the integer root has 53 bits. -/
def rootExponent (m : ℕ) (e : ℤ) : ℤ := (m.log2 + e + 2) / 2 - 53

/-- The mantissa in steps of the squared exponent of the root. -/
def radicand (m : ℕ) (e : ℤ) : ℕ := m <<< (e - 2 * rootExponent m e).toNat

theorem log2_le (hm : m ≠ 0) (normalized : Normalized m e) : m.log2 ≤ 52 :=
  Nat.lt_succ_iff.mp ((Nat.log2_lt hm).mpr normalized.mantissa_lt)

theorem sqrtCore_eq (hm : m ≠ 0) (normalized : Normalized m e) :
    sqrtCore .binary64 m e =
      ((radicand m e).sqrt, rootExponent m e, rootAccuracy (radicand m e)) := by
  have bits := log2_le hm normalized
  have least := normalized.le_exponent
  have target : min (e.ediv 2)
      (Format.binary64.targetExponent ((totalExponent m e + 1).ediv 2)) = rootExponent m e := by
    simp only [Format.targetExponent, totalExponent, rootExponent,
      show Format.binary64.mantissaBits = 53 from rfl,
      show Format.binary64.minExponent = -1074 from rfl]
    change min (e / 2) (max ((m.log2 + 1 + e + 1) / 2 - (53 : ℕ)) (-1074)) = _
    omega
  unfold sqrtCore
  rw [target]
  rfl

theorem radicand_eq (hm : m ≠ 0) (normalized : Normalized m e) :
    (radicand m e : ℚ) * (2 ^ rootExponent m e * 2 ^ rootExponent m e) = m * 2 ^ e := by
  have bits := log2_le hm normalized
  have shift : ((e - 2 * rootExponent m e).toNat : ℤ) = e - 2 * rootExponent m e := by
    unfold rootExponent
    omega
  rw [radicand, Nat.shiftLeft_eq, ← zpow_add₀ two_ne_zero]
  push_cast
  rw [mul_assoc, ← zpow_natCast, shift, ← zpow_add₀ two_ne_zero]
  congr 2
  ring

/-- The integer root has all the bits of a mantissa. -/
theorem two_pow_le_radicand (hm : m ≠ 0) (normalized : Normalized m e) :
    2 ^ 52 * 2 ^ 52 ≤ radicand m e := by
  have bits := log2_le hm normalized
  rw [radicand, Nat.shiftLeft_eq]
  calc
    2 ^ 52 * 2 ^ 52 ≤ 2 ^ (m.log2 + (e - 2 * rootExponent m e).toNat) := by
      rw [← pow_add]
      apply Nat.pow_le_pow_right two_pos
      unfold rootExponent
      omega
    _ = 2 ^ m.log2 * 2 ^ (e - 2 * rootExponent m e).toNat := pow_add _ _ _
    _ ≤ m * 2 ^ (e - 2 * rootExponent m e).toNat := Nat.mul_le_mul_right _ (Nat.log2_self_le hm)

/-- What is representable is a multiple of a power of two, or has fewer bits above it than a
mantissa has. -/
theorem Representable.multiple_or_small {b : ℚ} (h : Representable b) (nonneg : 0 ≤ b) (t : ℤ) :
    (∃ k : ℕ, b = k * 2 ^ t) ∨ b < 2 ^ 52 * 2 ^ t := by
  obtain ⟨k, f, hk, -, rfl⟩ := h
  have nonneg' : 0 ≤ k := by
    by_contra negative
    have : (k : ℚ) * 2 ^ f < 0 := mul_neg_of_neg_of_pos (by exact_mod_cast not_le.mp negative)
      (by positivity)
    linarith
  obtain ⟨k, rfl⟩ := Int.eq_ofNat_of_zero_le nonneg'
  rcases le_or_gt t f with coarse | fine
  · left
    obtain ⟨d, rfl⟩ : ∃ d : ℕ, f = t + d := ⟨(f - t).toNat, by omega⟩
    refine ⟨k * 2 ^ d, ?_⟩
    rw [zpow_add₀ two_ne_zero, zpow_natCast]
    push_cast
    ring
  · right
    have bits : (k : ℚ) < 2 ^ 53 := by
      rw [abs_of_nonneg nonneg'] at hk
      exact_mod_cast hk
    calc
      ((k : ℤ) : ℚ) * 2 ^ f < 2 ^ 53 * 2 ^ f := by
        gcongr
        exact_mod_cast bits
      _ = 2 ^ 52 * 2 ^ (f + 1) := by
        rw [zpow_add_one₀ two_ne_zero]
        ring
      _ ≤ 2 ^ 52 * 2 ^ t := by
        gcongr
        · norm_num
        · omega

variable {b : ℚ}

theorem le_root (hm : m ≠ 0) (normalized : Normalized m e) (representable : Representable b)
    (nonneg : 0 ≤ b) (square : b * b ≤ m * 2 ^ e) :
    b ≤ rootPoint (radicand m e) * 2 ^ rootExponent m e := by
  have positive : (0 : ℚ) < 2 ^ rootExponent m e := by positivity
  rcases representable.multiple_or_small nonneg (rootExponent m e) with ⟨k, rfl⟩ | small
  · rw [mul_mul_mul_comm, ← radicand_eq hm normalized,
      mul_le_mul_iff_left₀ (mul_pos positive positive)] at square
    gcongr
    exact le_rootPoint (by exact_mod_cast square)
  · have bits : ((2 ^ 52 : ℕ) : ℚ) ≤ rootPoint (radicand m e) :=
      le_rootPoint (two_pow_le_radicand hm normalized)
    calc
      b ≤ 2 ^ 52 * 2 ^ rootExponent m e := small.le
      _ ≤ rootPoint (radicand m e) * 2 ^ rootExponent m e := by
        gcongr
        exact_mod_cast bits

theorem root_le (hm : m ≠ 0) (normalized : Normalized m e) (representable : Representable b)
    (nonneg : 0 ≤ b) (square : m * 2 ^ e ≤ b * b) :
    rootPoint (radicand m e) * 2 ^ rootExponent m e ≤ b := by
  have positive : (0 : ℚ) < 2 ^ rootExponent m e := by positivity
  rw [← radicand_eq hm normalized] at square
  rcases representable.multiple_or_small nonneg (rootExponent m e) with ⟨k, rfl⟩ | small
  · rw [mul_mul_mul_comm, mul_le_mul_iff_left₀ (mul_pos positive positive)] at square
    gcongr
    exact rootPoint_le (by exact_mod_cast square)
  · have bits : ((2 ^ 52 * 2 ^ 52 : ℕ) : ℚ) ≤ radicand m e := by
      exact_mod_cast two_pow_le_radicand hm normalized
    have less : b * b < 2 ^ 52 * 2 ^ rootExponent m e * (2 ^ 52 * 2 ^ rootExponent m e) :=
      mul_self_lt_mul_self nonneg small
    rw [mul_mul_mul_comm] at less
    have more := mul_le_mul_of_nonneg_right bits (mul_pos positive positive).le
    push_cast at more
    linarith

end Enclosure

section Operation

variable {x : Float} {p : ℚ}

/-- The operation rounds the point that stands for the exact root. -/
theorem carries_sqrt {m : ℕ} {e : ℤ} (hm : m ≠ 0) (normalized : Normalized m e)
    (parts : x.toModel.unpack = ofParts .positive m e) :
    Carries (Float.sqrt x) (rounded (rootPoint (radicand m e) * 2 ^ rootExponent m e)) := by
  have bits := two_pow_le_radicand hm normalized
  have root : (radicand m e).sqrt ≠ 0 := by
    have square : 2 ^ 52 ≤ (radicand m e).sqrt := Nat.le_sqrt.mpr bits
    omega
  have least : (2 : ℚ) ^ (rootExponent m e + 52) ≤
      |rootPoint (radicand m e) * 2 ^ rootExponent m e| := by
    have point : ((2 ^ 52 : ℕ) : ℚ) ≤ rootPoint (radicand m e) := le_rootPoint bits
    rw [zpow_add₀ two_ne_zero, mul_comm, abs_of_nonneg (mul_nonneg (le_trans (by positivity) point)
      (by positivity))]
    gcongr
    exact_mod_cast point
  change Carries ⟨Float.Model.pack (UnpackedFloat.sqrt .binary64 x.toModel.unpack)⟩ _
  rw [parts, ofParts_of_ne_zero _ e hm]
  refine carries_rounded (s := .positive) ?_
  unfold UnpackedFloat.sqrt
  dsimp only
  rw [sqrtCore_eq hm normalized]
  refine roundWithAccuracy_eq .positive root ?_ (le_gridExponent least)
  rw [mul_div_cancel_right₀ _ (by positivity)]
  exact holds_root _

/-- The root of a number that is not negative lies on the same side of every representable
number as the exact root. -/
theorem exists_value?_sqrt (hx : value? x = some p) (nonneg : 0 ≤ p) :
    ∃ r, value? (Float.sqrt x) = some r ∧ 0 ≤ r ∧
      ∀ b, Representable b → 0 ≤ b → (b * b ≤ p → b ≤ r) ∧ (p ≤ b * b → r ≤ b) := by
  obtain ⟨s, m, e, hparts, normalized, he, rfl⟩ := exists_parts hx
  rcases eq_or_ne m 0 with rfl | hm
  · refine ⟨0, ?_, le_rfl, fun b _ nonneg' => ⟨fun square => ?_, fun _ => nonneg'⟩⟩
    · change value? ⟨Float.Model.pack (UnpackedFloat.sqrt .binary64 x.toModel.unpack)⟩ = _
      rw [hparts]
      exact (carries_zero s).value? (by rw [abs_zero]; exact outOfRange_pos)
    · rw [Nat.cast_zero, zero_mul, signed_zero] at square
      exact (mul_self_eq_zero.mp (square.antisymm (mul_self_nonneg b))).le
  cases s with
  | negative =>
      have magnitude : (0 : ℚ) < m * 2 ^ e := by positivity
      rw [isMinus, signed_true] at nonneg
      linarith
  | positive =>
      rw [isMinus, signed_false] at nonneg ⊢
      have nonneg' := le_rounded representable_zero
        (le_root hm normalized representable_zero le_rfl (by rwa [mul_zero]))
      have half : Representable (2 ^ (512 : ℤ)) := representable_zpow (by norm_num)
      have square : (m : ℚ) * 2 ^ e ≤ 2 ^ (512 : ℤ) * 2 ^ (512 : ℤ) := by
        have inRange := normalized.mul_lt_outOfRange he
        rw [outOfRange] at inRange
        rw [← zpow_add₀ two_ne_zero]
        exact inRange.le
      have upper := rounded_le half (root_le hm normalized half (by positivity) square)
      refine ⟨_, (carries_sqrt hm normalized hparts).value? ?_, nonneg', fun b hb hb' =>
        ⟨fun square => le_rounded hb (le_root hm normalized hb hb' square),
          fun square => rounded_le hb (root_le hm normalized hb hb' square)⟩⟩
      rw [abs_of_nonneg nonneg']
      exact lt_outOfRange_of_le (t := 512) (by norm_num) (by exact_mod_cast upper)

/-- Only zero has the root zero: no root is too small to be denoted. -/
theorem exists_value?_sqrt_eq_zero_iff (hx : value? x = some p) (nonneg : 0 ≤ p) :
    ∃ r, value? (Float.sqrt x) = some r ∧ 0 ≤ r ∧ (r = 0 ↔ p = 0) := by
  obtain ⟨r, root, nonneg', enclosure⟩ := exists_value?_sqrt hx nonneg
  refine ⟨r, root, nonneg', fun zero => ?_, ?_⟩
  · by_contra nonzero
    have least := (representable_of_value? hx).least_le (nonneg.lt_of_ne' nonzero)
    have small : Representable (2 ^ (-537 : ℤ)) := representable_zpow (by norm_num)
    have above := (enclosure _ small (by positivity)).1 (by
      rw [← zpow_add₀ two_ne_zero]
      exact least)
    rw [zero] at above
    exact absurd above (by norm_num)
  · rintro rfl
    exact ((enclosure 0 representable_zero le_rfl).2 (by rw [mul_zero])).antisymm nonneg'

/-- What is not a number has no root. -/
theorem ofFloat_sqrt_nan (hx : ofFloat x = nan) : ofFloat (Float.sqrt x) = nan := by
  rw [ofFloat_eq_ofUnpacked] at hx
  change ofFloat ⟨Float.Model.pack (UnpackedFloat.sqrt .binary64 x.toModel.unpack)⟩ = _
  cases parts : x.toModel.unpack with
  | notANumber => exact ofFloat_pack_notANumber
  | infinity s | zero s | finite s m e hm =>
      rw [parts] at hx
      cases hx

end Operation

end DiceSampling.Binary64
