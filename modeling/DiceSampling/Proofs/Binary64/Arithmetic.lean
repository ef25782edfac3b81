/-
# Float arithmetic as rounded arithmetic

The result of an operation on finite floats carries the exact result, rounded: it denotes
it, or it is infinite because that is out of range.  An operation with an infinity stays
at that infinity.  Conversions from integers round in the same way.
-/

import DiceSampling.Proofs.Binary64.Reading

namespace DiceSampling.Binary64

open Float.Model (Format UnpackedFloat totalExponent)
open Float.Model.UnpackedFloat

section Round

/-- Rounding from scratch first lengthens a mantissa that is too short. -/
theorem round_eq (s : Sign) {m : ℕ} (e : ℤ) (hm : m ≠ 0) :
    ∃ (n : ℕ) (t : ℤ), UnpackedFloat.round .binary64 s m e = ofParts s n t ∧ Normalized n t ∧
      rounded (m * 2 ^ e) = n * 2 ^ t := by
  have cancel : (m : ℚ) * 2 ^ e / 2 ^ e = m := mul_div_cancel_right₀ _ (by positivity)
  have target := targetExponent_eq_gridExponent (x := m * 2 ^ e) hm cancel.ge
    (by rw [cancel]; exact lt_add_one _)
  unfold UnpackedFloat.round decreaseExponent
  dsimp only
  rw [target]
  generalize hk : (e - gridExponent ((m : ℚ) * 2 ^ e)).toNat = k
  have longer : m <<< k ≠ 0 := by
    rw [Nat.shiftLeft_eq]
    exact mul_ne_zero hm (by positivity)
  have exact : (m : ℚ) * 2 ^ e / 2 ^ (e - (k : ℤ)) = ((m <<< k : ℕ) : ℚ) := by
    rw [Nat.shiftLeft_eq, div_eq_iff (by positivity)]
    push_cast
    rw [mul_assoc, ← zpow_natCast, ← zpow_add₀ two_ne_zero]
    congr 2
    omega
  refine roundWithAccuracy_eq s (x := m * 2 ^ e) longer ?_ (by omega)
  rw [exact]
  exact Holds.exact _

theorem carries_zero (s : Sign) : Carries ⟨Float.Model.pack (.zero s)⟩ 0 := by
  have h := carries_pack s (m := 0) (e := -1074) ⟨by norm_num, le_rfl, Or.inr rfl⟩
  rwa [Nat.cast_zero, zero_mul, signed_zero] at h

/-- A result of rounding is packed without loss unless it is out of range. -/
theorem carries_rounded {s : Sign} {u : UnpackedFloat} {x : ℚ}
    (parts : ∃ (n : ℕ) (t : ℤ), u = ofParts s n t ∧ Normalized n t ∧ rounded x = n * 2 ^ t) :
    Carries ⟨Float.Model.pack u⟩ (rounded (signed (isMinus s) x)) := by
  obtain ⟨n, t, rfl, normalized, value⟩ := parts
  rw [rounded_signed, value]
  exact carries_pack s normalized

/-- A sum or difference of mantissas is rounded as an integer times a power of two. -/
theorem carries_normalize (m e : ℤ) (s : Sign) :
    Carries ⟨Float.Model.pack (UnpackedFloat.normalize .binary64 m e s)⟩
      (rounded (m * 2 ^ e)) := by
  unfold UnpackedFloat.normalize
  rcases lt_trichotomy m 0 with negative | rfl | positive
  · obtain ⟨n, rfl⟩ : ∃ n : ℕ, m = -n := ⟨(-m).toNat, by omega⟩
    rw [Int.compare_eq_lt.mpr negative]
    dsimp only
    rw [show (- -(n : ℤ)).toNat = n by omega]
    have opposite : ((-(n : ℤ) : ℤ) : ℚ) * 2 ^ e = signed (isMinus .negative) (n * 2 ^ e) := by
      simp [isMinus]
    rw [opposite]
    exact carries_rounded (round_eq .negative e (by omega))
  · rw [Int.compare_eq_eq.mpr rfl]
    simpa using carries_zero s
  · obtain ⟨n, rfl⟩ : ∃ n : ℕ, m = n := ⟨m.toNat, by omega⟩
    rw [Int.compare_eq_gt.mpr positive]
    dsimp only
    rw [Int.toNat_natCast, Int.cast_natCast]
    simpa only [isMinus, signed_false] using carries_rounded (round_eq .positive e (by omega))

end Round

section Operations

variable {x y : Float} {p q : ℚ}

theorem isMinus_mul (s t : Sign) : isMinus (s * t) = (isMinus s != isMinus t) := by
  cases s <;> cases t <;> rfl

theorem signed_mul_signed (s t : Sign) (a b : ℚ) :
    signed (isMinus s) a * signed (isMinus t) b = signed (isMinus (s * t)) (a * b) := by
  rw [isMinus_mul]
  cases isMinus s <;> cases isMinus t <;> simp

/-- The product of two normalized mantissas needs no lengthening before it is rounded. -/
theorem add_exponents_le_gridExponent {m n : ℕ} {e f : ℤ} (hm : m ≠ 0) (hn : n ≠ 0)
    (first : Normalized m e) (second : Normalized n f) :
    e + f ≤ gridExponent (m * 2 ^ e * (n * 2 ^ f)) := by
  have le_left : m ≤ m * n := Nat.le_mul_of_pos_right m (Nat.pos_of_ne_zero hn)
  have le_right : n ≤ m * n := Nat.le_mul_of_pos_left n (Nat.pos_of_ne_zero hm)
  rcases le_or_gt (2 ^ 52) (m * n) with large | small
  · apply le_gridExponent
    have split : (m : ℚ) * 2 ^ e * (n * 2 ^ f) = (m * n : ℕ) * 2 ^ (e + f) := by
      rw [zpow_add₀ two_ne_zero]
      push_cast
      ring
    rw [split, abs_of_nonneg (by positivity), add_comm, zpow_add₀ two_ne_zero]
    gcongr
    exact_mod_cast large
  · -- Both factors are subnormal, and so is the product.
    have he := first.normal_or_least.resolve_left (by omega)
    have hf := second.normal_or_least.resolve_left (by omega)
    have least := neg_1074_le_gridExponent ((m : ℚ) * 2 ^ e * (n * 2 ^ f))
    omega

theorem carries_mul (hx : value? x = some p) (hy : value? y = some q) :
    Carries (x * y) (rounded (p * q)) := by
  obtain ⟨s, m, e, hparts, normal, -, rfl⟩ := exists_parts hx
  obtain ⟨s', n, f, hparts', normal', -, rfl⟩ := exists_parts hy
  change Carries ⟨Float.Model.pack (mul .binary64 x.toModel.unpack y.toModel.unpack)⟩ _
  rw [hparts, hparts', signed_mul_signed]
  rcases eq_or_ne m 0 with rfl | hm
  · have zero : mul .binary64 (ofParts s 0 e) (ofParts s' n f) = .zero (s * s') := by
      rcases eq_or_ne n 0 with rfl | hn
      · rfl
      · rw [ofParts_of_ne_zero s' f hn]
        rfl
    simpa [zero] using carries_zero _
  rcases eq_or_ne n 0 with rfl | hn
  · have zero : mul .binary64 (ofParts s m e) (ofParts s' 0 f) = .zero (s * s') := by
      rw [ofParts_of_ne_zero s e hm]
      rfl
    simpa [zero] using carries_zero _
  rw [ofParts_of_ne_zero s e hm, ofParts_of_ne_zero s' f hn]
  refine carries_rounded (roundWithAccuracy_eq _ (mul_ne_zero hm hn) ?_
    (add_exponents_le_gridExponent hm hn normal normal'))
  have exact : (m : ℚ) * 2 ^ e * (n * 2 ^ f) / 2 ^ (e + f) = ((m * n : ℕ) : ℚ) := by
    rw [zpow_add₀ two_ne_zero]
    push_cast
    field_simp
  rw [exact]
  exact Holds.exact _

theorem value?_mul (hx : value? x = some p) (hy : value? y = some q)
    (bound : |rounded (p * q)| < outOfRange) : value? (x * y) = some (rounded (p * q)) :=
  (carries_mul hx hy).value? bound

/-- Two mantissas are added after they have been brought to one exponent. -/
theorem apply_decreaseExponent (s : Sign) (m : ℕ) {e t : ℤ} (ht : t ≤ e) :
    (s.apply ((decreaseExponent m e t).1 : ℕ) : ℚ) * 2 ^ t = signed (isMinus s) (m * 2 ^ e) := by
  have magnitude : ((m <<< (e - t).toNat : ℕ) : ℚ) * 2 ^ t = m * 2 ^ e := by
    rw [Nat.shiftLeft_eq]
    push_cast
    rw [mul_assoc, ← zpow_natCast, ← zpow_add₀ two_ne_zero]
    congr 2
    omega
  cases s
  · simp only [decreaseExponent, Sign.apply, isMinus, signed_true, Int.cast_neg, Int.cast_natCast,
      neg_mul, magnitude]
  · simp only [decreaseExponent, Sign.apply, isMinus, signed_false, Int.cast_natCast, magnitude]

/-- Both zeros are added as signs, and a zero leaves the other number as it is. -/
theorem carries_addParts (s s' : Sign) {m n : ℕ} {e f : ℤ} (first : Normalized m e)
    (second : Normalized n f) :
    Carries ⟨Float.Model.pack (add .binary64 (ofParts s m e) (ofParts s' n f))⟩
      (rounded (signed (isMinus s) (m * 2 ^ e) + signed (isMinus s') (n * 2 ^ f))) := by
  rcases eq_or_ne m 0 with rfl | hm
  · rw [Nat.cast_zero, zero_mul, signed_zero, zero_add,
      rounded_of_representable (second.representable_signed _)]
    rcases eq_or_ne n 0 with rfl | hn
    · rw [Nat.cast_zero, zero_mul, signed_zero]
      cases s <;> cases s' <;> exact carries_zero _
    · rw [ofParts_of_ne_zero s' f hn]
      change Carries ⟨Float.Model.pack (.finite s' n f _)⟩ _
      rw [← ofParts_of_ne_zero s' f hn]
      exact carries_pack s' second
  rcases eq_or_ne n 0 with rfl | hn
  · rw [Nat.cast_zero, zero_mul, signed_zero, add_zero,
      rounded_of_representable (first.representable_signed _), ofParts_of_ne_zero s e hm]
    change Carries ⟨Float.Model.pack (.finite s m e _)⟩ _
    rw [← ofParts_of_ne_zero s e hm]
    exact carries_pack s first
  rw [ofParts_of_ne_zero s e hm, ofParts_of_ne_zero s' f hn]
  have aligned : signed (isMinus s) (m * 2 ^ e) + signed (isMinus s') (n * 2 ^ f) =
      ((s.apply (decreaseExponent m e (min e f)).1 +
        s'.apply (decreaseExponent n f (min e f)).1 : ℤ) : ℚ) * 2 ^ min e f := by
    rw [Int.cast_add, add_mul, apply_decreaseExponent s m (min_le_left e f),
      apply_decreaseExponent s' n (min_le_right e f)]
  rw [aligned]
  exact carries_normalize _ _ .positive

theorem carries_add (hx : value? x = some p) (hy : value? y = some q) :
    Carries (x + y) (rounded (p + q)) := by
  obtain ⟨s, m, e, hparts, normal, -, rfl⟩ := exists_parts hx
  obtain ⟨s', n, f, hparts', normal', -, rfl⟩ := exists_parts hy
  change Carries ⟨Float.Model.pack (add .binary64 x.toModel.unpack y.toModel.unpack)⟩ _
  rw [hparts, hparts']
  exact carries_addParts s s' normal normal'

theorem value?_add (hx : value? x = some p) (hy : value? y = some q)
    (bound : |rounded (p + q)| < outOfRange) : value? (x + y) = some (rounded (p + q)) :=
  (carries_add hx hy).value? bound

theorem sub_ofParts (s s' : Sign) (m n : ℕ) (e f : ℤ) :
    sub .binary64 (ofParts s m e) (ofParts s' n f) =
      add .binary64 (ofParts s m e) (ofParts (-s') n f) := by
  rcases eq_or_ne m 0 with rfl | hm <;> rcases eq_or_ne n 0 with rfl | hn
  · rfl
  · rw [ofParts_of_ne_zero _ f hn, ofParts_of_ne_zero _ f hn]
    rfl
  · rw [ofParts_of_ne_zero _ e hm]
    rfl
  · rw [ofParts_of_ne_zero _ e hm, ofParts_of_ne_zero _ f hn, ofParts_of_ne_zero _ f hn]
    have normalize {a b : ℤ} (h : a = b) :
        UnpackedFloat.normalize .binary64 a (min e f) .positive =
          UnpackedFloat.normalize .binary64 b (min e f) .positive := by rw [h]
    cases s'
    · exact normalize (sub_neg_eq_add _ _)
    · exact normalize (sub_eq_add_neg _ _)

theorem signed_isMinus_neg (s : Sign) (a : ℚ) :
    signed (isMinus (-s)) a = -signed (isMinus s) a := by
  cases s
  · exact (neg_neg a).symm
  · rfl

theorem carries_sub (hx : value? x = some p) (hy : value? y = some q) :
    Carries (x - y) (rounded (p - q)) := by
  obtain ⟨s, m, e, hparts, normal, -, rfl⟩ := exists_parts hx
  obtain ⟨s', n, f, hparts', normal', -, rfl⟩ := exists_parts hy
  change Carries ⟨Float.Model.pack (sub .binary64 x.toModel.unpack y.toModel.unpack)⟩ _
  rw [hparts, hparts', sub_ofParts]
  rw [sub_eq_add_neg, ← signed_isMinus_neg]
  exact carries_addParts s (-s') normal normal'

theorem value?_sub (hx : value? x = some p) (hy : value? y = some q)
    (bound : |rounded (p - q)| < outOfRange) : value? (x - y) = some (rounded (p - q)) :=
  (carries_sub hx hy).value? bound

/-- The opposite of a float is exact. -/
theorem value?_neg (hx : value? x = some p) : value? (-x) = some (-p) := by
  obtain ⟨s, m, e, hparts, normal, he, rfl⟩ := exists_parts hx
  have opposite : neg (ofParts s m e) = ofParts (-s) m e := by
    rcases eq_or_ne m 0 with rfl | hm
    · rfl
    · rw [ofParts_of_ne_zero s e hm, ofParts_of_ne_zero (-s) e hm]
      rfl
  change value? ⟨Float.Model.pack (neg x.toModel.unpack)⟩ = _
  rw [hparts, opposite, value?_repack _ normal he, signed_isMinus_neg]

/-- A positive number times an infinity is that infinity. -/
theorem ofFloat_mul_infinite {negative : Bool} (hx : value? x = some p) (positive : 0 < p)
    (hy : ofFloat y = infinite negative) : ofFloat (x * y) = infinite negative := by
  obtain ⟨s, m, e, hparts, -, -, rfl⟩ := exists_parts hx
  obtain ⟨s', hparts', rfl⟩ := unpack_of_ofFloat_eq_infinite hy
  have hm : m ≠ 0 := by
    rintro rfl
    simp at positive
  have magnitude : (0 : ℚ) < m * 2 ^ e := by positivity
  change ofFloat ⟨Float.Model.pack (mul .binary64 x.toModel.unpack y.toModel.unpack)⟩ = _
  rw [hparts, hparts', ofParts_of_ne_zero s e hm]
  cases s with
  | negative =>
      rw [isMinus, signed_true] at positive
      linarith
  | positive => cases s' <;> exact ofFloat_pack_infinity _

/-- A number and an infinity add up to that infinity. -/
theorem ofFloat_add_infinite {negative : Bool} (hx : value? x = some p)
    (hy : ofFloat y = infinite negative) : ofFloat (x + y) = infinite negative := by
  obtain ⟨s, m, e, hparts, -, -, rfl⟩ := exists_parts hx
  obtain ⟨s', hparts', rfl⟩ := unpack_of_ofFloat_eq_infinite hy
  change ofFloat ⟨Float.Model.pack (add .binary64 x.toModel.unpack y.toModel.unpack)⟩ = _
  rw [hparts, hparts']
  rcases eq_or_ne m 0 with rfl | hm
  · exact ofFloat_pack_infinity s'
  · rw [ofParts_of_ne_zero s e hm]
    exact ofFloat_pack_infinity s'

end Operations

end DiceSampling.Binary64
