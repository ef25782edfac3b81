/-
# The numbers that floats denote

`value?` reads a float as a rational number.  The reading goes through the bits of
the float, and agrees with the sign, mantissa and exponent that float operations work
on.  Every float has a normalized mantissa, and a result with a normalized mantissa
is packed without loss unless it is too large.
-/

import DiceSampling.Binary64.Basic
import DiceSampling.Proofs.Binary64.Mantissa

namespace DiceSampling.Binary64

open Float.Model (Format UnpackedFloat totalExponent)
open Float.Model.UnpackedFloat

/-- A number or its opposite. -/
def signed (negative : Bool) (x : ℚ) : ℚ := if negative then -x else x

@[simp] theorem signed_false (x : ℚ) : signed false x = x := rfl

@[simp] theorem signed_true (x : ℚ) : signed true x = -x := rfl

@[simp] theorem signed_zero (negative : Bool) : signed negative 0 = 0 := by
  cases negative <;> simp

@[simp] theorem abs_signed (negative : Bool) (x : ℚ) : |signed negative x| = |x| := by
  cases negative <;> simp

@[simp] theorem rounded_signed (negative : Bool) (x : ℚ) :
    rounded (signed negative x) = signed negative (rounded x) := by
  cases negative <;> simp

/-- The number that a float denotes, if it is finite. -/
def toRat? : Binary64 → Option ℚ
  | finite negative m e => some (signed negative (m * 2 ^ e))
  | _ => none

/-- The number that a float denotes, if it is finite. -/
def value? (x : Float) : Option ℚ := (ofFloat x).toRat?

/-- What is out of the range of floats: their numbers are smaller than this. -/
@[irreducible] def outOfRange : ℚ := 2 ^ (1024 : ℤ)

/-- Whether a sign is the minus sign. -/
def isMinus : Sign → Bool
  | .negative => true
  | .positive => false

/-- The meaning of the sign, mantissa and exponent that operations work on. -/
def ofUnpacked : UnpackedFloat → Binary64
  | .notANumber => nan
  | .infinity s => infinite (isMinus s)
  | .zero s => finite (isMinus s) 0 (-1074)
  | .finite s m e _ => finite (isMinus s) m e

section Fields

variable (x : Float.Model)

theorem toNat_unpackExponent :
    (@unpackExponent .binary64 x.toBits.toBitVec).toNat =
      x.toBits.toNat / 2 ^ 52 % 2 ^ 11 := by
  simp [unpackExponent, Nat.shiftRight_eq_div_pow]

theorem toNat_unpackMantissa :
    (@unpackMantissa .binary64 x.toBits.toBitVec).toNat = x.toBits.toNat % 2 ^ 52 := by
  simp [unpackMantissa]

theorem isMinus_unpackSign :
    isMinus (.ofBitVec (@unpackSign .binary64 x.toBits.toBitVec)) =
      decide (2 ^ 63 ≤ x.toBits.toNat) := by
  have bound := x.toBits.toNat_lt
  have bit : (@unpackSign .binary64 x.toBits.toBitVec).toNat =
      x.toBits.toNat / 2 ^ 63 := by
    unfold unpackSign
    rw [BitVec.toNat_cast, BitVec.extractLsb_toNat, Nat.shiftRight_eq_div_pow,
      UInt64.toNat_toBitVec]
    change x.toBits.toNat / 2 ^ 63 % 2 ^ 1 = _
    omega
  have zero : @unpackSign .binary64 x.toBits.toBitVec = 0#1 ↔
      ¬ 2 ^ 63 ≤ x.toBits.toNat := by
    rw [← BitVec.toNat_inj, bit, BitVec.toNat_zero]
    omega
  unfold Sign.ofBitVec
  split
  · rename_i h
    rw [decide_eq_false (zero.mp h)]
    rfl
  · rename_i h
    rw [decide_eq_true (not_not.mp (mt zero.mpr h))]
    rfl

theorem toNat_implicit_append (m : BitVec 52) : (1#1 ++ m).toNat = 2 ^ 52 + m.toNat := by
  rw [BitVec.toNat_append, ← Nat.shiftLeft_add_eq_or_of_lt m.isLt]
  rfl

end Fields

/-- The fields of a float, read from its bits as a natural number. -/
theorem ofFloat_eq (x : Float) :
    ofFloat x =
      let bits := x.toModel.toBits.toNat
      if bits / 2 ^ 52 % 2 ^ 11 = 2047 then
        if bits % 2 ^ 52 = 0 then infinite (decide (2 ^ 63 ≤ bits)) else nan
      else if bits / 2 ^ 52 % 2 ^ 11 = 0 then
        finite (decide (2 ^ 63 ≤ bits)) (bits % 2 ^ 52) (-1074)
      else
        finite (decide (2 ^ 63 ≤ bits)) (2 ^ 52 + bits % 2 ^ 52)
          ((bits / 2 ^ 52 % 2 ^ 11 : ℕ) - 1075) := by
  have negative : (x.toBits >>> 63 != 0) = decide (2 ^ 63 ≤ x.toModel.toBits.toNat) := by
    change (x.toModel.toBits >>> 63 != 0) = _
    rw [Bool.eq_iff_iff, bne_iff_ne, ne_eq, ← UInt64.toNat_inj, UInt64.toNat_shiftRight,
      Nat.shiftRight_eq_div_pow, decide_eq_true_iff]
    change ¬ x.toModel.toBits.toNat / 2 ^ 63 = 0 ↔ _
    omega
  have exponent : ((x.toBits >>> 52) &&& 0x7ff).toNat =
      x.toModel.toBits.toNat / 2 ^ 52 % 2 ^ 11 := by
    change ((x.toModel.toBits >>> 52) &&& 0x7ff).toNat = _
    rw [UInt64.toNat_and, UInt64.toNat_shiftRight, Nat.shiftRight_eq_div_pow]
    exact Nat.and_two_pow_sub_one_eq_mod _ 11
  have fraction : (x.toBits &&& 0xfffffffffffff).toNat = x.toModel.toBits.toNat % 2 ^ 52 := by
    change (x.toModel.toBits &&& 0xfffffffffffff).toNat = _
    rw [UInt64.toNat_and]
    exact Nat.and_two_pow_sub_one_eq_mod _ 52
  unfold ofFloat
  dsimp only
  rw [negative, exponent, fraction]
  rfl

/-- Reading the bits of a float and unpacking it for an operation give the same meaning. -/
theorem ofFloat_eq_ofUnpacked (x : Float) : ofFloat x = ofUnpacked x.toModel.unpack := by
  rw [ofFloat_eq]
  unfold Float.Model.unpack unpack
  have exponent := toNat_unpackExponent x.toModel
  have fraction := toNat_unpackMantissa x.toModel
  have sign := isMinus_unpackSign x.toModel
  have top : @unpackExponent .binary64 x.toModel.toBits.toBitVec = -1#11 ↔
      (@unpackExponent .binary64 x.toModel.toBits.toBitVec).toNat = 2047 := by
    rw [← BitVec.toNat_inj]
    rfl
  have bottom : @unpackExponent .binary64 x.toModel.toBits.toBitVec = 0#11 ↔
      (@unpackExponent .binary64 x.toModel.toBits.toBitVec).toNat = 0 := by
    rw [← BitVec.toNat_inj]
    rfl
  have zero : @unpackMantissa .binary64 x.toModel.toBits.toBitVec = 0#52 ↔
      (@unpackMantissa .binary64 x.toModel.toBits.toBitVec).toNat = 0 := by
    rw [← BitVec.toNat_inj]
    rfl
  dsimp only
  rw [← exponent, ← fraction, ← sign]
  by_cases h1 : @unpackExponent .binary64 x.toModel.toBits.toBitVec = -1#11
  · rw [if_pos (top.mp h1), if_pos h1]
    split_ifs with h2 h3 h3
    · rfl
    · exact absurd (zero.mpr h2) h3
    · exact absurd (zero.mp h3) h2
    · rfl
  rw [if_neg (mt top.mpr h1), if_neg h1]
  by_cases h2 : @unpackExponent .binary64 x.toModel.toBits.toBitVec = 0#11
  · rw [if_pos (bottom.mp h2), if_pos h2]
    by_cases h3 : @unpackMantissa .binary64 x.toModel.toBits.toBitVec = 0#52
    · rw [dif_pos h3, zero.mp h3]
      rfl
    · rw [dif_neg h3, bottom.mp h2]
      rfl
  · rw [if_neg (mt bottom.mpr h2), if_neg h2]
    change _ = finite _ (1#1 ++ @unpackMantissa .binary64 x.toModel.toBits.toBitVec).toNat _
    rw [toNat_implicit_append]
    rfl

theorem normalized_of_ofFloat {x : Float} {negative : Bool} {m : ℕ} {e : ℤ}
    (h : ofFloat x = finite negative m e) : Normalized m e ∧ e ≤ 971 := by
  rw [ofFloat_eq] at h
  dsimp only at h
  split_ifs at h <;> cases h <;> refine ⟨⟨?_, ?_, ?_⟩, ?_⟩ <;> omega

theorem toNat_packComponents (s : Sign) (e : BitVec 11) (m : BitVec 52) :
    (packComponents .binary64 s e m).toNat =
      (if isMinus s then 2 ^ 63 else 0) + e.toNat * 2 ^ 52 + m.toNat := by
  have he := e.isLt
  have hm := m.isLt
  change (s.toBitVec ++ e ++ m).toNat = _
  rw [BitVec.toNat_append, BitVec.toNat_append, ← Nat.shiftLeft_add_eq_or_of_lt hm,
    ← Nat.shiftLeft_add_eq_or_of_lt he, Nat.shiftLeft_eq, Nat.shiftLeft_eq]
  cases s <;> simp only [isMinus, Sign.toBitVec] <;> simp; omega

/-- The bits of a packed result: a mantissa of 53 bits loses the highest of them, which
the exponent field stands for. -/
theorem toNat_toBits_pack (s : Sign) {m : ℕ} {e : ℤ} (h : Normalized m e) (he : e ≤ 971) :
    (Float.Model.pack (ofParts s m e)).toBits.toNat =
      (if isMinus s then 2 ^ 63 else 0) +
        (if m < 2 ^ 52 then m else (e + 1075).toNat * 2 ^ 52 + (m - 2 ^ 52)) := by
  obtain ⟨hm, least, normal⟩ := h
  change (pack .binary64 (ofParts s m e)).toNat = _
  rcases eq_or_ne m 0 with rfl | nonzero
  · exact toNat_packComponents s 0 0
  rw [ofParts_of_ne_zero s e nonzero]
  have room : ¬ 2 ^ 11 ≤ (e + 1023 + 52).toNat + 1 := by omega
  change (if 2 ^ 11 ≤ (e + 1023 + 52).toNat + 1 then packedInfinity .binary64 s
    else if m.log2 + 1 = 53 then
      packComponents .binary64 s (BitVec.ofNat 11 (e + 1023 + 52).toNat) (BitVec.ofNat 52 m)
    else packComponents .binary64 s 0#11 (BitVec.ofNat 52 m)).toNat = _
  rw [if_neg room]
  by_cases small : m < 2 ^ 52
  · have bits : ¬ m.log2 + 1 = 53 := by
      have := (Nat.log2_lt nonzero).mpr small
      omega
    rw [if_neg bits, toNat_packComponents, if_pos small, BitVec.toNat_ofNat, BitVec.toNat_ofNat]
    omega
  · have bits : m.log2 + 1 = 53 := by
      have low : 52 ≤ m.log2 := (Nat.le_log2 nonzero).mpr (not_lt.mp small)
      have high : m.log2 < 53 := (Nat.log2_lt nonzero).mpr hm
      omega
    rw [if_pos bits, toNat_packComponents, if_neg small, BitVec.toNat_ofNat, BitVec.toNat_ofNat]
    omega

/-- A normalized result that is not too large is packed without loss. -/
theorem ofFloat_pack (s : Sign) {m : ℕ} {e : ℤ} (h : Normalized m e) (he : e ≤ 971) :
    ofFloat ⟨Float.Model.pack (ofParts s m e)⟩ = finite (isMinus s) m e := by
  have bits := toNat_toBits_pack s h he
  obtain ⟨hm, least, normal⟩ := h
  rw [ofFloat_eq]
  dsimp only
  rw [bits]
  generalize hs : (if isMinus s then 2 ^ 63 else 0) = sign
  have signBit : sign = 2 ^ 63 ∧ isMinus s = true ∨ sign = 0 ∧ isMinus s = false := by
    cases h : isMinus s <;> simp_all
  generalize isMinus s = negative at signBit
  have top {n : ℕ} (hn : n < 2 ^ 63) : decide (2 ^ 63 ≤ sign + n) = negative := by
    rcases signBit with ⟨hsign, rfl⟩ | ⟨hsign, rfl⟩
    · exact decide_eq_true (by omega)
    · exact decide_eq_false (by omega)
  by_cases small : m < 2 ^ 52
  · obtain rfl : e = -1074 := by omega
    rw [if_pos small, if_neg (by omega), if_pos (by omega), top (by omega),
      show (sign + m) % 2 ^ 52 = m by omega]
  · have field : (sign + ((e + 1075).toNat * 2 ^ 52 + (m - 2 ^ 52))) / 2 ^ 52 % 2 ^ 11 =
        (e + 1075).toNat := by omega
    have fraction : (sign + ((e + 1075).toNat * 2 ^ 52 + (m - 2 ^ 52))) % 2 ^ 52 = m - 2 ^ 52 := by
      omega
    rw [if_neg small, field, fraction, if_neg (by omega), if_neg (by omega), top (by omega),
      show 2 ^ 52 + (m - 2 ^ 52) = m by omega,
      show (((e + 1075).toNat : ℕ) : ℤ) - 1075 = e by omega]

/-- The packed infinities are read as such. -/
theorem ofFloat_pack_infinity (s : Sign) :
    ofFloat ⟨Float.Model.pack (.infinity s)⟩ = infinite (isMinus s) := by
  cases s <;> decide

/-- A result whose exponent is too large is packed as the infinity of its sign. -/
theorem pack_eq_infinity (s : Sign) {m : ℕ} {e : ℤ} (hm : m ≠ 0) (large : 971 < e) :
    Float.Model.pack (ofParts s m e) = Float.Model.pack (.infinity s) := by
  have full : 2 ^ 11 ≤ (e + 1023 + 52).toNat + 1 := by omega
  have packed : pack .binary64 (ofParts s m e) = pack .binary64 (.infinity s) := by
    rw [ofParts_of_ne_zero s e hm]
    exact if_pos full
  rw [Float.Model.pack, Float.Model.pack, Float.Model.mk.injEq, packed]

/-- What is read as infinite is worked on as an infinity. -/
theorem unpack_of_ofFloat_eq_infinite {x : Float} {negative : Bool}
    (h : ofFloat x = infinite negative) :
    ∃ s, x.toModel.unpack = .infinity s ∧ isMinus s = negative := by
  rw [ofFloat_eq_ofUnpacked] at h
  cases parts : x.toModel.unpack with
  | infinity s =>
      rw [parts] at h
      exact ⟨s, rfl, infinite.inj h⟩
  | notANumber =>
      rw [parts] at h
      cases h
  | zero s =>
      rw [parts] at h
      cases h
  | finite s m e hm =>
      rw [parts] at h
      cases h

namespace Normalized

variable {m : ℕ} {e : ℤ}

theorem representable (h : Normalized m e) : Representable (m * 2 ^ e) :=
  ⟨m, e, by rw [abs_of_nonneg (by positivity)]; exact_mod_cast h.mantissa_lt, h.le_exponent, rfl⟩

theorem representable_signed (h : Normalized m e) (negative : Bool) :
    Representable (signed negative (m * 2 ^ e)) := by
  cases negative
  · exact h.representable
  · exact h.representable.neg

theorem exponent_le (h : Normalized m e) (bound : (m : ℚ) * 2 ^ e < outOfRange) : e ≤ 971 := by
  rcases h.normal_or_least with normal | rfl
  · have low : (2 : ℚ) ^ (52 + e) < 2 ^ (1024 : ℤ) := by
      calc
        (2 : ℚ) ^ (52 + e) = 2 ^ 52 * 2 ^ e := by rw [zpow_add₀ two_ne_zero]; norm_num
        _ ≤ m * 2 ^ e := by gcongr; exact_mod_cast normal
        _ < 2 ^ (1024 : ℤ) := by rwa [outOfRange] at bound
    have := (zpow_lt_zpow_iff_right₀ one_lt_two).mp low
    omega
  · norm_num

theorem mul_lt_outOfRange (h : Normalized m e) (he : e ≤ 971) :
    (m : ℚ) * 2 ^ e < outOfRange := by
  rw [outOfRange]
  calc
    (m : ℚ) * 2 ^ e < 2 ^ 53 * 2 ^ e := by
      gcongr
      exact_mod_cast h.mantissa_lt
    _ ≤ 2 ^ 53 * 2 ^ (971 : ℤ) := by
      gcongr
      norm_num
    _ = 2 ^ (1024 : ℤ) := by
      rw [← zpow_natCast, ← zpow_add₀ two_ne_zero]
      norm_num

end Normalized

theorem value?_repack (s : Sign) {m : ℕ} {e : ℤ} (h : Normalized m e) (he : e ≤ 971) :
    value? ⟨Float.Model.pack (ofParts s m e)⟩ = some (signed (isMinus s) (m * 2 ^ e)) := by
  rw [value?, ofFloat_pack s h he]
  rfl

/-- A finite float is made of a sign and a normalized mantissa. -/
theorem exists_parts {x : Float} {q : ℚ} (h : value? x = some q) :
    ∃ (s : Sign) (m : ℕ) (e : ℤ), x.toModel.unpack = ofParts s m e ∧ Normalized m e ∧ e ≤ 971 ∧
      q = signed (isMinus s) (m * 2 ^ e) := by
  have reading := ofFloat_eq_ofUnpacked x
  cases parts : x.toModel.unpack with
  | infinity s =>
      rw [value?, reading, parts] at h
      cases h
  | notANumber =>
      rw [value?, reading, parts] at h
      cases h
  | zero s =>
      rw [parts] at reading
      change ofFloat x = finite (isMinus s) 0 (-1074) at reading
      obtain ⟨normalized, bound⟩ := normalized_of_ofFloat reading
      rw [value?, reading, toRat?, Option.some.injEq] at h
      exact ⟨s, 0, -1074, rfl, normalized, bound, h.symm⟩
  | finite s m e hm =>
      rw [parts] at reading
      change ofFloat x = finite (isMinus s) m e at reading
      obtain ⟨normalized, bound⟩ := normalized_of_ofFloat reading
      rw [value?, reading, toRat?, Option.some.injEq] at h
      exact ⟨s, m, e, (ofParts_of_ne_zero s e hm.ne').symm, normalized, bound, h.symm⟩

theorem outOfRange_pos : 0 < outOfRange := by unfold outOfRange; positivity

/-- Numbers of up to a thousand bits are in range. -/
theorem lt_outOfRange_of_le {x : ℚ} {t : ℕ} (ht : t ≤ 1000) (h : x ≤ 2 ^ t) : x < outOfRange := by
  rw [← zpow_natCast] at h
  rw [outOfRange]
  exact h.trans_lt (zpow_lt_zpow_right₀ one_lt_two (by omega))

theorem representable_of_value? {x : Float} {q : ℚ} (h : value? x = some q) :
    Representable q := by
  obtain ⟨s, m, e, -, normalized, -, rfl⟩ := exists_parts h
  exact normalized.representable_signed _

/-- A float carries a number, whose range is not bounded: it denotes the number, or the
number is out of range and the float is the infinity of its sign. -/
inductive Carries (x : Float) (q : ℚ) : Prop
  | number (inRange : |q| < outOfRange) (value : value? x = some q)
  | infinity (tooLarge : outOfRange ≤ |q|) (reading : ofFloat x = infinite (decide (q < 0)))

theorem Carries.value? {x : Float} {q : ℚ} (h : Carries x q) (bound : |q| < outOfRange) :
    value? x = some q := by
  cases h with
  | number inRange value => exact value
  | infinity tooLarge reading => exact absurd bound tooLarge.not_gt

/-- A normalized result is packed without loss, or it is too large and becomes infinite. -/
theorem carries_pack (s : Sign) {m : ℕ} {e : ℤ} (h : Normalized m e) :
    Carries ⟨Float.Model.pack (ofParts s m e)⟩ (signed (isMinus s) (m * 2 ^ e)) := by
  have nonneg : (0 : ℚ) ≤ m * 2 ^ e := by positivity
  by_cases he : e ≤ 971
  · refine Carries.number ?_ (value?_repack s h he)
    rw [abs_signed, abs_of_nonneg nonneg]
    exact h.mul_lt_outOfRange he
  · have tooLarge : outOfRange ≤ (m : ℚ) * 2 ^ e := by
      by_contra small
      exact he (h.exponent_le (not_le.mp small))
    have positive : (0 : ℚ) < m * 2 ^ e := outOfRange_pos.trans_le tooLarge
    have hm : m ≠ 0 := by
      rintro rfl
      simp at positive
    refine Carries.infinity ?_ ?_
    · rwa [abs_signed, abs_of_nonneg nonneg]
    · rw [pack_eq_infinity s hm (not_le.mp he), ofFloat_pack_infinity]
      cases s
      · simp [isMinus, positive]
      · exact congrArg infinite (decide_eq_false nonneg.not_gt).symm

end DiceSampling.Binary64
