/-
# Floats, integers and the unit interval

An integer becomes the nearest float, and a float becomes an integer by dropping what
stands behind the point.  A number other than zero belongs to one float only, and the
floats that compare as at least zero and less than one denote numbers that do.
-/

import DiceSampling.Proofs.Binary64.Arithmetic

namespace DiceSampling.Binary64

open Float.Model (Format UnpackedFloat totalExponent)
open Float.Model.UnpackedFloat

/-- Natural numbers of up to 53 bits are packed as they are. -/
theorem value?_normalize_natCast {n : ℕ} (small : n ≤ 2 ^ 53) :
    value? ⟨Float.Model.pack (UnpackedFloat.normalize .binary64 n 0 .positive)⟩ = some (n : ℚ) := by
  have exact := rounded_of_representable (representable_natCast small)
  have h := carries_normalize n 0 .positive
  rw [zpow_zero, mul_one, Int.cast_natCast, exact] at h
  refine h.value? ?_
  rw [abs_of_nonneg (Nat.cast_nonneg _)]
  exact lt_outOfRange_of_le (t := 53) (by norm_num) (by exact_mod_cast small)

theorem value?_toFloat (n : UInt32) : value? n.toFloat = some (n.toNat : ℚ) :=
  value?_normalize_natCast (n.toNat_lt.le.trans (by norm_num))

theorem value?_toFloat_of_le {n : UInt64} (small : n.toNat ≤ 2 ^ 53) :
    value? n.toFloat = some (n.toNat : ℚ) :=
  value?_normalize_natCast small

theorem rounded_toNat_nonneg (n : UInt64) : 0 ≤ rounded n.toNat :=
  rounded_nonneg (Nat.cast_nonneg _)

theorem one_le_rounded_toNat {n : UInt64} (nonzero : n ≠ 0) : 1 ≤ rounded n.toNat := by
  refine le_rounded representable_one ?_
  exact_mod_cast Nat.one_le_iff_ne_zero.mpr fun zero => nonzero (UInt64.toNat_inj.mp zero)

theorem rounded_toNat_le (n : UInt64) : rounded n.toNat ≤ 2 ^ 64 :=
  rounded_le (representable_two_pow 64) (by exact_mod_cast n.toNat_lt.le)

/-- A word of 64 bits becomes the float that is nearest to it. -/
theorem value?_toFloat_rounded (n : UInt64) : value? n.toFloat = some (rounded n.toNat) := by
  have h := carries_normalize n.toNat 0 .positive
  rw [zpow_zero, mul_one, Int.cast_natCast] at h
  refine Carries.value? h ?_
  rw [abs_of_nonneg (rounded_toNat_nonneg n)]
  exact lt_outOfRange_of_le (by norm_num) (rounded_toNat_le n)

/-- Bringing a mantissa to the exponent zero leaves the integer part of its number. -/
theorem roundToInt_eq (s : Sign) (m : ℕ) (e : ℤ) :
    roundToInt s m e = s.apply ⌊(m : ℚ) * 2 ^ e⌋ := by
  have holds := (Holds.exact (m <<< (e - 0).toNat)).shiftRight (0 - (e - (e - 0).toNat)).toNat
  have scaled : ((m <<< (e - 0).toNat : ℕ) : ℚ) / 2 ^ (0 - (e - (e - 0).toNat)).toNat =
      m * 2 ^ e := by
    rw [Nat.shiftLeft_eq, div_eq_iff (by positivity)]
    push_cast
    rw [mul_assoc, ← zpow_natCast, ← zpow_natCast, ← zpow_add₀ two_ne_zero]
    congr 2
    omega
  rw [scaled] at holds
  have whole : ⌊(m : ℚ) * 2 ^ e⌋ =
      ((ExtendedMantissa.ofMantissaAndAccuracy (m <<< (e - 0).toNat) .exact >>>
        (0 - (e - (e - 0).toNat)).toNat).mantissa : ℕ) :=
    Int.floor_eq_iff.mpr ⟨holds.mantissa_le, holds.lt_mantissa_add_one⟩
  rw [whole]
  rfl

theorem toNat_ofNatClamp (n : ℕ) : (UInt32.ofNatClamp n).toNat = min (2 ^ 32 - 1) n := by
  unfold UInt32.ofNatClamp
  split
  · rename_i small
    rw [UInt32.toNat_ofNatLT]
    simp only [UInt32.size] at small
    omega
  · rename_i large
    simp only [UInt32.size] at large ⊢
    rw [UInt32.toNat_ofNatLT]
    omega

/-- What a float becomes in 32 bits: its integer part, brought into the range. -/
theorem toNat_toUInt32 {x : Float} {q : ℚ} (h : value? x = some q) :
    x.toUInt32.toNat = min (2 ^ 32 - 1) ⌊q⌋.toNat := by
  obtain ⟨s, m, e, parts, normalized, -, rfl⟩ := exists_parts h
  change (x.toModel.unpack.toUInt32).toNat = _
  rw [parts, UnpackedFloat.toUInt32, toNat_ofNatClamp]
  congr 1
  rcases eq_or_ne m 0 with rfl | hm
  · rw [ofParts_zero, Nat.cast_zero, zero_mul, signed_zero, Int.floor_zero]
    rfl
  rw [ofParts_of_ne_zero s e hm]
  change (roundToInt s m e).toNat = _
  rw [roundToInt_eq]
  have nonneg : (0 : ℚ) ≤ m * 2 ^ e := by positivity
  cases s
  · -- What is negative becomes zero.
    have above : 0 ≤ ⌊(m : ℚ) * 2 ^ e⌋ := Int.floor_nonneg.mpr nonneg
    have below : ⌊-((m : ℚ) * 2 ^ e)⌋ ≤ 0 := by
      rw [Int.floor_le_iff]
      push_cast
      linarith
    simp only [Sign.apply, isMinus, signed_true]
    omega
  · rfl

/-- An infinity becomes the end of the range on its side. -/
theorem toNat_toUInt32_of_infinite {x : Float} {negative : Bool}
    (h : ofFloat x = infinite negative) :
    x.toUInt32.toNat = if negative then 0 else 2 ^ 32 - 1 := by
  obtain ⟨s, parts, rfl⟩ := unpack_of_ofFloat_eq_infinite h
  change (x.toModel.unpack.toUInt32).toNat = _
  rw [parts]
  cases s <;> rfl

/-- What is at least `2 ^ 32` becomes the upper end of the range. -/
theorem min_toNat_floor_of_le {q : ℚ} (h : 2 ^ 32 ≤ q) :
    min (2 ^ 32 - 1) ⌊q⌋.toNat = 2 ^ 32 - 1 := by
  have floor : 2 ^ 32 ≤ ⌊q⌋ := Int.le_floor.mpr (by exact_mod_cast h)
  omega

/-- What is not positive becomes zero. -/
theorem min_toNat_floor_of_nonpos {q : ℚ} (h : q ≤ 0) : min (2 ^ 32 - 1) ⌊q⌋.toNat = 0 := by
  have floor : ⌊q⌋ ≤ 0 := Int.floor_nonpos h
  omega

theorem two_pow_le_outOfRange : (2 : ℚ) ^ 32 ≤ outOfRange :=
  (lt_outOfRange_of_le (by norm_num) le_rfl).le

/-- In 32 bits it does not show whether a number is in the range of floats. -/
theorem toNat_toUInt32_of_carries {x : Float} {q : ℚ} (h : Carries x q) :
    x.toUInt32.toNat = min (2 ^ 32 - 1) ⌊q⌋.toNat := by
  cases h with
  | number _ value => exact toNat_toUInt32 value
  | infinity tooLarge reading =>
      have large := two_pow_le_outOfRange.trans tooLarge
      rw [toNat_toUInt32_of_infinite reading]
      rcases lt_or_ge q 0 with negative | nonneg
      · rw [min_toNat_floor_of_nonpos negative.le, decide_eq_true negative]
        rfl
      · rw [abs_of_nonneg nonneg] at large
        rw [min_toNat_floor_of_le large, decide_eq_false nonneg.not_gt]
        rfl

namespace Normalized

variable {m n : ℕ} {e f : ℤ}

/-- The exponent of a normalized mantissa comes first in the order. -/
theorem lt_of_exponent_lt (first : Normalized m e) (second : Normalized n f) (h : e < f) :
    (m : ℚ) * 2 ^ e < n * 2 ^ f := by
  have large : 2 ^ 52 ≤ n := second.normal_or_least.resolve_right
    (by have := first.le_exponent; omega)
  calc
    (m : ℚ) * 2 ^ e < 2 ^ 53 * 2 ^ e := by
      gcongr
      exact_mod_cast first.mantissa_lt
    _ = 2 ^ 52 * 2 ^ (e + 1) := by
      rw [zpow_add_one₀ two_ne_zero]
      ring
    _ ≤ n * 2 ^ f := by
      gcongr
      · exact_mod_cast large
      · norm_num
      · omega

theorem unique (first : Normalized m e) (second : Normalized n f)
    (h : (m : ℚ) * 2 ^ e = n * 2 ^ f) : m = n ∧ e = f := by
  rcases lt_trichotomy e f with less | rfl | greater
  · exact absurd h (first.lt_of_exponent_lt second less).ne
  · refine ⟨?_, rfl⟩
    exact_mod_cast mul_right_cancel₀ (by positivity) h
  · exact absurd h (second.lt_of_exponent_lt first greater).ne'

end Normalized

theorem eq_of_ofFloat_eq_finite {x y : Float} {negative : Bool} {m : ℕ} {e : ℤ}
    (hx : ofFloat x = finite negative m e) (hy : ofFloat y = finite negative m e) : x = y := by
  have bits : x.toModel.toBits.toNat = y.toModel.toBits.toNat := by
    have boundX := x.toModel.toBits.toNat_lt
    have boundY := y.toModel.toBits.toNat_lt
    rw [ofFloat_eq] at hx hy
    dsimp only at hx hy
    split_ifs at hx hy <;> simp only [finite.injEq] at hx hy <;>
      obtain ⟨hs, hm, he⟩ := hx <;> obtain ⟨hs', hm', he'⟩ := hy <;>
      rw [← hs', decide_eq_decide] at hs <;> omega
  obtain ⟨⟨bitsX, _⟩⟩ := x
  obtain ⟨⟨bitsY, _⟩⟩ := y
  have equal : bitsX = bitsY := UInt64.toNat_inj.mp bits
  subst equal
  rfl

theorem exists_ofFloat_eq_finite {x : Float} {q : ℚ} (h : value? x = some q) :
    ∃ (negative : Bool) (m : ℕ) (e : ℤ), ofFloat x = finite negative m e ∧ Normalized m e ∧
      q = signed negative (m * 2 ^ e) := by
  cases reading : ofFloat x with
  | nan => simp [value?, reading, toRat?] at h
  | infinite negative => simp [value?, reading, toRat?] at h
  | finite negative m e =>
      rw [value?, reading, toRat?, Option.some.injEq] at h
      exact ⟨negative, m, e, rfl, (normalized_of_ofFloat reading).1, h.symm⟩

/-- A number other than zero belongs to one float. -/
theorem eq_of_value?_eq {x y : Float} {q : ℚ} (hx : value? x = some q) (hy : value? y = some q)
    (hq : q ≠ 0) : x = y := by
  obtain ⟨s, m, e, readX, first, rfl⟩ := exists_ofFloat_eq_finite hx
  obtain ⟨s', n, f, readY, second, equal⟩ := exists_ofFloat_eq_finite hy
  have left : (0 : ℚ) ≤ m * 2 ^ e := by positivity
  have right : (0 : ℚ) ≤ n * 2 ^ f := by positivity
  have magnitude : (m : ℚ) * 2 ^ e = n * 2 ^ f := by
    have h := congrArg (|·|) equal
    rwa [abs_signed, abs_signed, abs_of_nonneg left, abs_of_nonneg right] at h
  have sign : s = s' := by
    have positive : (0 : ℚ) < m * 2 ^ e := by
      refine lt_of_le_of_ne left fun zero => hq ?_
      rw [← zero, signed_zero]
    rw [← magnitude] at equal
    cases s <;> cases s' <;> simp only [signed_true, signed_false] at equal <;>
      first | rfl | (exfalso; linarith)
  obtain ⟨rfl, rfl⟩ := first.unique second magnitude
  subst sign
  exact eq_of_ofFloat_eq_finite readX readY

theorem value?_zero : value? 0.0 = some 0 := by
  have reading : ofFloat 0.0 = finite false 0 (-1074) := by decide
  rw [value?, reading, toRat?, Nat.cast_zero, zero_mul, signed_zero]

theorem value?_one : value? 1.0 = some 1 := by
  have reading : ofFloat 1.0 = finite false (2 ^ 52) (-52) := by decide
  rw [value?, reading, toRat?, signed_false, Option.some.injEq]
  norm_num

theorem value?_two : value? 2.0 = some 2 := by
  have reading : ofFloat 2.0 = finite false (2 ^ 52) (-51) := by decide
  rw [value?, reading, toRat?, signed_false, Option.some.injEq]
  norm_num

theorem abs_rounded_lt_outOfRange {x : ℚ} (small : |x| ≤ 2 ^ 53) : |rounded x| < outOfRange :=
  lt_outOfRange_of_le (by norm_num) (abs_rounded_le (representable_two_pow 53) small)

/-- A float that compares as at least zero and less than one denotes such a number. -/
theorem exists_value?_of_unit {r : Float} (lower : 0.0 ≤ r) (upper : r < 1.0) :
    ∃ q, value? r = some q ∧ 0 ≤ q ∧ q < 1 := by
  have one : Normalized (2 ^ 52) (-52) := ⟨by norm_num, by norm_num, Or.inl le_rfl⟩
  replace lower : UnpackedFloat.le (.zero .positive) r.toModel.unpack = true :=
    of_decide_eq_true lower
  replace upper : UnpackedFloat.lt r.toModel.unpack
      (.finite .positive (2 ^ 52) (-52) (by norm_num)) = true := of_decide_eq_true upper
  have reading := ofFloat_eq_ofUnpacked r
  cases parts : r.toModel.unpack with
  | notANumber =>
      rw [parts] at lower
      cases lower
  | infinity s =>
      rw [parts] at lower upper
      cases s
      · cases lower
      · cases upper
  | zero s =>
      rw [parts] at reading
      change ofFloat r = finite (isMinus s) 0 (-1074) at reading
      refine ⟨0, ?_, le_rfl, one_pos⟩
      rw [value?, reading, toRat?, Nat.cast_zero, zero_mul, signed_zero]
  | finite s m e hm =>
      rw [parts] at lower upper reading
      cases s
      · cases lower
      have normalized := (normalized_of_ofFloat reading).1
      refine ⟨m * 2 ^ e, by rw [value?, reading]; rfl, by positivity, ?_⟩
      have order : (compare e (-52)).then (compare m (2 ^ 52)) = .lt :=
        Option.some.inj (eq_of_beq upper)
      rw [Ordering.then_eq_lt, Int.compare_eq_lt, Int.compare_eq_eq, Nat.compare_eq_lt] at order
      rcases order with less | ⟨rfl, less⟩
      · refine (normalized.lt_of_exponent_lt one less).trans_eq ?_
        norm_num
      · rw [zpow_neg, ← div_eq_mul_inv, div_lt_one (by positivity)]
        exact_mod_cast less

end DiceSampling.Binary64
