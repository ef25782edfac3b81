/-
# The order of floats

Floats are compared by sign, exponent and mantissa, in this order, and both zeros are
equal.  On finite floats this is the order of the numbers that they denote, and the
infinities are before and after them all.
-/

import DiceSampling.Proofs.Binary64.Conversion
import Mathlib.Order.Compare

namespace DiceSampling.Binary64

open Float.Model (UnpackedFloat)
open Float.Model.UnpackedFloat

section Parts

variable {m n : ℕ} {e f : ℤ}

/-- Exponents come first, and of equal exponents the mantissas decide. -/
theorem Normalized.compare_then_eq (first : Normalized m e) (second : Normalized n f) :
    (compare e f).then (compare m n) = cmp ((m : ℚ) * 2 ^ e) (n * 2 ^ f) := by
  rcases lt_trichotomy e f with less | rfl | greater
  · rw [(first.lt_of_exponent_lt second less).cmp_eq_lt, Int.compare_eq_lt.mpr less]
    rfl
  · rw [Int.compare_eq_eq.mpr rfl, Ordering.eq_then, cmp_mul_pos_right (by positivity)]
    rcases lt_trichotomy m n with less | rfl | greater
    · rw [Nat.compare_eq_lt.mpr less, (Nat.cast_lt.mpr less).cmp_eq_lt]
    · rw [Nat.compare_eq_eq.mpr rfl, cmp_self_eq_eq]
    · rw [Nat.compare_eq_gt.mpr greater, (Nat.cast_lt.mpr greater).cmp_eq_gt]
  · rw [(second.lt_of_exponent_lt first greater).cmp_eq_gt, Int.compare_eq_gt.mpr greater]
    rfl

theorem signed_true_lt_signed_false {p q : ℚ} (left : 0 < p) (right : 0 < q) :
    signed true p < signed false q := by
  rw [signed_true, signed_false]
  linarith

theorem compare_ofParts (s s' : Sign) (first : Normalized m e) (second : Normalized n f) :
    UnpackedFloat.compare (ofParts s m e) (ofParts s' n f) =
      some (cmp (signed (isMinus s) (m * 2 ^ e)) (signed (isMinus s') (n * 2 ^ f))) := by
  have positive (k : ℕ) (hk : k ≠ 0) (g : ℤ) : (0 : ℚ) < k * 2 ^ g := by positivity
  rcases eq_or_ne m 0 with rfl | hm <;> rcases eq_or_ne n 0 with rfl | hn
  · rw [Nat.cast_zero, zero_mul, zero_mul, signed_zero, signed_zero, cmp_self_eq_eq]
    rfl
  · rw [ofParts_of_ne_zero s' f hn, Nat.cast_zero, zero_mul, signed_zero]
    have h := positive n hn f
    cases s'
    · rw [isMinus, signed_true, (neg_lt_zero.mpr h).cmp_eq_gt]
      rfl
    · rw [isMinus, signed_false, h.cmp_eq_lt]
      rfl
  · rw [ofParts_of_ne_zero s e hm, Nat.cast_zero, zero_mul, signed_zero]
    have h := positive m hm e
    cases s
    · rw [isMinus, signed_true, (neg_lt_zero.mpr h).cmp_eq_lt]
      rfl
    · rw [isMinus, signed_false, h.cmp_eq_gt]
      rfl
  · rw [ofParts_of_ne_zero s e hm, ofParts_of_ne_zero s' f hn]
    have order := signed_true_lt_signed_false (positive m hm e) (positive n hn f)
    have order' := signed_true_lt_signed_false (positive n hn f) (positive m hm e)
    cases s <;> cases s'
    · change some ((compare e f).then (compare m n)).swap = _
      rw [first.compare_then_eq second, cmp_swap, isMinus, signed_true, signed_true,
        neg_eq_neg_one_mul, neg_eq_neg_one_mul (_ * _), cmp_mul_neg_left neg_one_lt_zero]
    · rw [isMinus, isMinus, order.cmp_eq_lt]
      rfl
    · rw [isMinus, isMinus, order'.cmp_eq_gt]
      rfl
    · change some ((compare e f).then (compare m n)) = _
      rw [first.compare_then_eq second, isMinus, signed_false, signed_false]

end Parts

section Floats

variable {x y : Float} {p q : ℚ}

/-- Floats compare as their numbers do. -/
theorem compare_eq_cmp (hx : value? x = some p) (hy : value? y = some q) :
    UnpackedFloat.compare x.toModel.unpack y.toModel.unpack = some (cmp p q) := by
  obtain ⟨s, m, e, hparts, normal, -, rfl⟩ := exists_parts hx
  obtain ⟨s', n, f, hparts', normal', -, rfl⟩ := exists_parts hy
  rw [hparts, hparts', compare_ofParts s s' normal normal']

theorem lt_iff_of_value? (hx : value? x = some p) (hy : value? y = some q) :
    x < y ↔ p < q := by
  change decide ((UnpackedFloat.compare x.toModel.unpack y.toModel.unpack == some .lt) = true) =
    true ↔ _
  rw [decide_eq_true_iff, compare_eq_cmp hx hy, beq_iff_eq, Option.some.injEq, cmp_eq_lt_iff]

theorem le_iff_of_value? (hx : value? x = some p) (hy : value? y = some q) :
    x ≤ y ↔ p ≤ q := by
  change decide ((UnpackedFloat.compare x.toModel.unpack y.toModel.unpack).any (·.isLE) = true) =
    true ↔ _
  rw [decide_eq_true_iff, compare_eq_cmp hx hy, Option.any_some, Ordering.isLE_iff_ne_gt,
    cmp_eq_gt_iff, not_lt]

theorem le_of_infinite (hx : ofFloat x = infinite true) (hy : value? y = some q) : x ≤ y := by
  obtain ⟨s, parts, sign⟩ := unpack_of_ofFloat_eq_infinite hx
  obtain ⟨s', m, e, hparts, -, -, -⟩ := exists_parts hy
  change decide ((UnpackedFloat.compare x.toModel.unpack y.toModel.unpack).any (·.isLE) = true) =
    true
  cases s with
  | positive => cases sign
  | negative =>
      rw [parts, hparts]
      rcases eq_or_ne m 0 with rfl | hm
      · rfl
      · rw [ofParts_of_ne_zero s' e hm]
        rfl

theorem le_of_lt_float (h : x < y) : x ≤ y := by
  have order : (UnpackedFloat.compare x.toModel.unpack y.toModel.unpack == some .lt) = true :=
    of_decide_eq_true h
  change decide ((UnpackedFloat.compare x.toModel.unpack y.toModel.unpack).any (·.isLE) = true) =
    true
  rw [eq_of_beq order]
  rfl

/-- Nothing compares with what is not a number, and an infinity only stands at its end. -/
theorem unpacked_le_cases {u v : UnpackedFloat} (h : UnpackedFloat.le u v = true) :
    u = .infinity .negative ∨ v = .infinity .positive ∨
      (∃ p, (ofUnpacked u).toRat? = some p) ∧ ∃ q, (ofUnpacked v).toRat? = some q := by
  cases u with
  | notANumber => cases h
  | infinity s =>
      cases s with
      | negative => exact .inl rfl
      | positive =>
          cases v with
          | infinity s' =>
              cases s' with
              | negative => cases h
              | positive => exact .inr (.inl rfl)
          | notANumber | zero _ | finite _ _ _ _ => cases h
  | zero _ | finite _ _ _ _ =>
      cases v with
      | notANumber => cases h
      | infinity s' =>
          cases s' with
          | negative => cases h
          | positive => exact .inr (.inl rfl)
      | zero _ | finite _ _ _ _ => exact .inr (.inr ⟨⟨_, rfl⟩, ⟨_, rfl⟩⟩)

/-- Floats that compare are numbers in their order, or one of them is the infinity at its
end. -/
theorem le_cases (h : x ≤ y) :
    ofFloat x = infinite true ∨ ofFloat y = infinite false ∨
      ∃ p q, value? x = some p ∧ value? y = some q ∧ p ≤ q := by
  have order : UnpackedFloat.le x.toModel.unpack y.toModel.unpack = true := of_decide_eq_true h
  rw [ofFloat_eq_ofUnpacked x, ofFloat_eq_ofUnpacked y]
  rcases unpacked_le_cases order with least | greatest | ⟨⟨p, hx⟩, ⟨q, hy⟩⟩
  · exact .inl (congrArg ofUnpacked least)
  · exact .inr (.inl (congrArg ofUnpacked greatest))
  · rw [← ofFloat_eq_ofUnpacked] at hx hy
    exact .inr (.inr ⟨p, q, hx, hy, (le_iff_of_value? hx hy).mp h⟩)

end Floats

end DiceSampling.Binary64
