/-
# Fair dice

A generator gives the multiples of `2 ^ -53` in `[0, 1)`, and it gives each of them for
the same number of pairs of words.  The multiples that lead below a face are, up to two
at the one end and one at the other, those before the point where exact arithmetic would
change the face.  So each face is shown for `2 ^ 53 / sides` of them, up to less than
three, and no face is out of reach.
-/

import DiceSampling.Proofs.Draw
import DiceSampling.Random.Generator

namespace DiceSampling

open Binary64

namespace Generator

/-- The value that lies `k` units above zero. -/
def multiple (k : ℕ) : Float := (UInt64.ofNat k).toFloat * unit

/-- Two words stand for the multiple that their 53 highest bits count. -/
theorem valueOfWords_eq (low high : UInt32) :
    valueOfWords low high = multiple ((high.toNat * 2 ^ 32 + low.toNat) / 2 ^ 11) := by
  have hlow := low.toNat_lt
  have hhigh := high.toNat_lt
  have joined : ((high.toUInt64 <<< 32 ||| low.toUInt64) >>> 11).toNat =
      (high.toNat * 2 ^ 32 + low.toNat) / 2 ^ 11 := by
    rw [UInt64.toNat_shiftRight, UInt64.toNat_or, UInt64.toNat_shiftLeft, UInt32.toNat_toUInt64,
      UInt32.toNat_toUInt64, Nat.shiftRight_eq_div_pow]
    change (high.toNat <<< 32 % 2 ^ 64 ||| low.toNat) / 2 ^ 11 = _
    rw [Nat.mod_eq_of_lt (by rw [Nat.shiftLeft_eq]; omega), ← Nat.shiftLeft_add_eq_or_of_lt hlow,
      Nat.shiftLeft_eq]
  rw [valueOfWords, multiple, ← joined, UInt64.ofNat_toNat]

/-- Every multiple below one stands for two words. -/
theorem exists_valueOfWords_eq {k : ℕ} (hk : k < 2 ^ 53) :
    ∃ low high, valueOfWords low high = multiple k := by
  refine ⟨UInt32.ofNat (k % 2 ^ 21 * 2 ^ 11), UInt32.ofNat (k / 2 ^ 21), ?_⟩
  have low : (UInt32.ofNat (k % 2 ^ 21 * 2 ^ 11)).toNat = k % 2 ^ 21 * 2 ^ 11 :=
    UInt32.toNat_ofNat_of_lt' (by simp only [UInt32.size]; omega)
  have high : (UInt32.ofNat (k / 2 ^ 21)).toNat = k / 2 ^ 21 :=
    UInt32.toNat_ofNat_of_lt' (by simp only [UInt32.size]; omega)
  rw [valueOfWords_eq, low, high]
  congr 1
  omega

theorem value?_unit : value? unit = some (2 ^ (-53 : ℤ)) := by
  have reading : ofFloat unit = finite false (2 ^ 52) (-105) := by decide
  rw [value?, reading, toRat?, signed_false, Option.some.injEq]
  norm_num

theorem value?_multiple {k : ℕ} (hk : k < 2 ^ 53) :
    value? (multiple k) = some (k / 2 ^ 53 : ℚ) := by
  have whole : (UInt64.ofNat k).toNat = k := UInt64.toNat_ofNat_of_lt' (by
    simp only [UInt64.size]
    omega)
  have counted := value?_toFloat_of_le (n := UInt64.ofNat k) (by omega)
  rw [whole] at counted
  have hk' : (k : ℚ) < 2 ^ 53 := by exact_mod_cast hk
  have product := value?_mul counted value?_unit (abs_rounded_lt_outOfRange (by
    rw [abs_of_nonneg (by positivity)]
    norm_num
    linarith))
  have representable : Representable ((k : ℤ) * 2 ^ (-53 : ℤ)) :=
    representable_mul_zpow (by rw [abs_of_nonneg] <;> omega) (by norm_num)
  rw [Int.cast_natCast] at representable
  rw [multiple, product, rounded_of_representable representable, zpow_neg, ← div_eq_mul_inv]
  rfl

end Generator

namespace Dice

open Generator

variable {sides : UInt32} {k t : ℕ}

theorem toNat_draw_multiple (hk : k < 2 ^ 53) :
    (draw 1 sides (multiple k)).toNat =
      min (2 ^ 32 - 1) ⌊rounded (1 + rounded (sides.toNat * (k / 2 ^ 53 : ℚ)))⌋.toNat :=
  toNat_draw (value?_multiple hk)

/-- From the exact point on, a die shows a later face. -/
theorem lt_draw_multiple (hk : k < 2 ^ 53) (onDie : t < sides.toNat)
    (late : (t : ℚ) ≤ sides.toNat * (k / 2 ^ 53)) : t < (draw 1 sides (multiple k)).toNat := by
  have small := sides.toNat_lt
  have product : (t : ℚ) ≤ rounded (sides.toNat * (k / 2 ^ 53)) :=
    le_rounded (representable_natCast (by omega)) late
  have sum : ((t + 1 : ℕ) : ℚ) ≤ rounded (1 + rounded (sides.toNat * (k / 2 ^ 53))) := by
    refine le_rounded (representable_natCast (by omega)) ?_
    push_cast
    linarith
  have floor : ((t + 1 : ℕ) : ℤ) ≤ ⌊rounded (1 + rounded (sides.toNat * (k / 2 ^ 53 : ℚ)))⌋ :=
    Int.le_floor.mpr (by exact_mod_cast sum)
  rw [toNat_draw_multiple hk]
  omega

/-- What lies two units before an exact point lies below one. -/
theorem lt_of_early (positive : sides ≠ 0) (onDie : t ≤ sides.toNat)
    (early : (k : ℚ) ≤ 2 ^ 53 * t / sides.toNat - 2) : k < 2 ^ 53 := by
  have sidesPos : (0 : ℚ) < sides.toNat := by exact_mod_cast toNat_pos_of_ne_zero positive
  have point : (2 : ℚ) ^ 53 * t / sides.toNat ≤ 2 ^ 53 := by
    rw [div_le_iff₀ sidesPos]
    gcongr
  have below : (k : ℚ) < 2 ^ 53 := by linarith
  exact_mod_cast below

/-- Two units before the exact point it does not: both roundings together go up by less
than that, because the steps of the grid at `t` are no longer than those at `sides`. -/
theorem draw_multiple_le (hk : k < 2 ^ 53) (positive : 0 < t) (onDie : t ≤ sides.toNat)
    (early : (k : ℚ) ≤ 2 ^ 53 * t / sides.toNat - 2) :
    (draw 1 sides (multiple k)).toNat ≤ t := by
  have small := sides.toNat_lt
  have sidesPos : (0 : ℚ) < sides.toNat := by exact_mod_cast positive.trans_le onDie
  have onDie' : (t : ℚ) ≤ sides.toNat := by exact_mod_cast onDie
  have bits : t.log2 < 52 := (Nat.log2_lt positive.ne').mpr (by omega)
  have coarse : (2 : ℚ) ^ (t.log2 - 52 : ℤ) ≤ sides.toNat * (2 / 2 ^ 53) := by
    have low : (2 : ℚ) ^ t.log2 ≤ t := by exact_mod_cast Nat.log2_self_le positive.ne'
    rw [sub_eq_add_neg, zpow_add₀ two_ne_zero, zpow_natCast]
    norm_num at low ⊢
    linarith
  have exact : (sides.toNat : ℚ) * (k / 2 ^ 53) ≤ t - 2 ^ (t.log2 - 52 : ℤ) := by
    have scaled : (k : ℚ) * sides.toNat ≤ (2 ^ 53 * t / sides.toNat - 2) * sides.toNat :=
      mul_le_mul_of_nonneg_right early sidesPos.le
    rw [sub_mul, div_mul_cancel₀ _ sidesPos.ne'] at scaled
    norm_num at scaled coarse ⊢
    linarith
  have product := rounded_le (representable_sub_step bits positive Nat.lt_log2_self.le) exact
  have sum := rounded_one_add_lt bits Nat.lt_log2_self product
  have floor : ⌊rounded (1 + rounded (sides.toNat * (k / 2 ^ 53 : ℚ)))⌋ < (t + 1 : ℤ) :=
    Int.floor_lt.mpr (by exact_mod_cast sum)
  rw [toNat_draw_multiple hk]
  omega

/-- The multiples below one that lead to a face of `t` or less. -/
def upTo (sides : UInt32) (t : ℕ) : Finset ℕ :=
  (Finset.range (2 ^ 53)).filter fun k => (draw 1 sides (multiple k)).toNat ≤ t

theorem card_upTo_lt (positive : sides ≠ 0) (onDie : t ≤ sides.toNat) :
    ((upTo sides t).card : ℚ) < 2 ^ 53 * t / sides.toNat + 1 := by
  have sidesPos : (0 : ℚ) < sides.toNat := by exact_mod_cast toNat_pos_of_ne_zero positive
  have subset : upTo sides t ⊆ Finset.range ⌈(2 ^ 53 * t / sides.toNat : ℚ)⌉₊ := by
    intro k member
    obtain ⟨range, shown⟩ := Finset.mem_filter.mp member
    have hk := Finset.mem_range.mp range
    rw [Finset.mem_range, Nat.lt_ceil, lt_div_iff₀ sidesPos]
    rcases onDie.lt_or_eq with inner | rfl
    · by_contra late
      have := lt_draw_multiple (t := t) hk inner (by
        rw [mul_div_assoc', le_div_iff₀ (by positivity)]
        linarith)
      omega
    · rw [mul_lt_mul_iff_left₀ sidesPos]
      exact_mod_cast hk
  calc
    ((upTo sides t).card : ℚ) ≤ ⌈(2 ^ 53 * t / sides.toNat : ℚ)⌉₊ := by
      exact_mod_cast (Finset.card_le_card subset).trans_eq (Finset.card_range _)
    _ < 2 ^ 53 * t / sides.toNat + 1 := Nat.ceil_lt_add_one (by positivity)

theorem lt_card_upTo (positive : sides ≠ 0) (onDie : t ≤ sides.toNat) :
    (2 ^ 53 * t / sides.toNat - 2 : ℚ) < (upTo sides t).card := by
  have sidesPos : (0 : ℚ) < sides.toNat := by exact_mod_cast toNat_pos_of_ne_zero positive
  rcases lt_or_ge (2 ^ 53 * t / sides.toNat - 2 : ℚ) 0 with below | above
  · exact below.trans_le (Nat.cast_nonneg _)
  have inner : 0 < t := by
    rw [pos_iff_ne_zero]
    rintro rfl
    norm_num at above
  have subset : Finset.range (⌊(2 ^ 53 * t / sides.toNat - 2 : ℚ)⌋₊ + 1) ⊆ upTo sides t := by
    intro k hk
    have early : (k : ℚ) ≤ 2 ^ 53 * t / sides.toNat - 2 :=
      (Nat.le_floor_iff above).mp (Nat.lt_succ_iff.mp (Finset.mem_range.mp hk))
    have range := lt_of_early positive onDie early
    exact Finset.mem_filter.mpr
      ⟨Finset.mem_range.mpr range, draw_multiple_le range inner onDie early⟩
  calc
    (2 ^ 53 * t / sides.toNat - 2 : ℚ) < ⌊(2 ^ 53 * t / sides.toNat - 2 : ℚ)⌋₊ + 1 :=
      Nat.lt_floor_add_one _
    _ ≤ (upTo sides t).card := by
      exact_mod_cast (Finset.card_range _).symm.trans_le (Finset.card_le_card subset)

/-- The multiples that show a face are those that lead up to it and not up to the one before. -/
theorem filter_draw_eq {face : UInt32} (least : 1 ≤ face) :
    ((Finset.range (2 ^ 53)).filter fun k => draw 1 sides (multiple k) = face) =
      upTo sides face.toNat \ upTo sides (face.toNat - 1) := by
  have least' : 1 ≤ face.toNat := UInt32.le_iff_toNat_le.mp least
  ext k
  simp only [upTo, Finset.mem_sdiff, Finset.mem_filter, Finset.mem_range, ← UInt32.toNat_inj]
  constructor
  · rintro ⟨hk, shown⟩
    exact ⟨⟨hk, shown.le⟩, fun h => by omega⟩
  · rintro ⟨⟨hk, upper⟩, lower⟩
    exact ⟨hk, le_antisymm upper (by by_contra h; exact lower ⟨hk, by omega⟩)⟩

theorem upTo_subset {t t' : ℕ} (h : t ≤ t') : upTo sides t ⊆ upTo sides t' :=
  Finset.monotone_filter_right _ fun _ _ le => le_trans le h

/-- The number of multiples that show a face, from the numbers of those that lead up to it. -/
theorem card_draw_eq {face : UInt32} (least : 1 ≤ face) :
    (((Finset.range (2 ^ 53)).filter fun k => draw 1 sides (multiple k) = face).card : ℚ) =
      (upTo sides face.toNat).card - (upTo sides (face.toNat - 1)).card := by
  have subset : upTo sides (face.toNat - 1) ⊆ upTo sides face.toNat := upTo_subset (by omega)
  rw [filter_draw_eq least, Finset.card_sdiff_of_subset subset,
    Nat.cast_sub (Finset.card_le_card subset)]

theorem abs_card_upTo_sub_lt (least : 1 ≤ t) (greatest : t ≤ sides.toNat) :
    |((upTo sides t).card - (upTo sides (t - 1)).card : ℚ) - 2 ^ 53 / sides.toNat| < 3 := by
  have positive : sides ≠ 0 := by
    rintro rfl
    exact absurd (least.trans greatest) (by decide)
  have before : t - 1 ≤ sides.toNat := by omega
  have width : (2 ^ 53 * t / sides.toNat : ℚ) =
      2 ^ 53 * (t - 1 : ℕ) / sides.toNat + 2 ^ 53 / sides.toNat := by
    rw [Nat.cast_sub least]
    push_cast
    ring
  have upper := card_upTo_lt positive greatest
  have lower := lt_card_upTo positive greatest
  have upper' := card_upTo_lt positive before
  have lower' := lt_card_upTo positive before
  rw [abs_lt]
  constructor <;> linarith

/-- The expected number is more than two million, so the true one is not zero. -/
theorem three_lt_share (positive : sides ≠ 0) : (3 : ℚ) < 2 ^ 53 / sides.toNat := by
  have sidesPos : (0 : ℚ) < sides.toNat := by exact_mod_cast toNat_pos_of_ne_zero positive
  have small : (sides.toNat : ℚ) < 2 ^ 32 := by exact_mod_cast sides.toNat_lt
  rw [lt_div_iff₀ sidesPos]
  linarith

/-- The number of multiples of `2 ^ -53` in `[0, 1)` that show a face is `2 ^ 53 / sides` up to
less than three, and two words of a generator stand for one of them. -/
theorem abs_card_draw_sub_lt {face : UInt32} (least : 1 ≤ face) (greatest : face ≤ sides) :
    |(((Finset.range (2 ^ 53)).filter fun k => draw 1 sides (multiple k) = face).card : ℚ) -
      2 ^ 53 / sides.toNat| < 3 ∧
    ∃ low high, draw 1 sides (valueOfWords low high) = face := by
  have least' : 1 ≤ face.toNat := UInt32.le_iff_toNat_le.mp least
  have greatest' : face.toNat ≤ sides.toNat := UInt32.le_iff_toNat_le.mp greatest
  have near := abs_card_upTo_sub_lt least' greatest'
  rw [← card_draw_eq least] at near
  refine ⟨near, ?_⟩
  have positive : sides ≠ 0 := by
    rintro rfl
    exact absurd (least'.trans greatest') (by decide)
  have many := three_lt_share positive
  obtain ⟨k, member⟩ : ((Finset.range (2 ^ 53)).filter fun k =>
      draw 1 sides (multiple k) = face).Nonempty := by
    rw [Finset.nonempty_iff_ne_empty]
    intro neverShown
    rw [neverShown, Finset.card_empty, Nat.cast_zero] at near
    linarith [(abs_lt.mp near).1]
  obtain ⟨range, shown⟩ := Finset.mem_filter.mp member
  obtain ⟨low, high, words⟩ := exists_valueOfWords_eq (Finset.mem_range.mp range)
  exact ⟨low, high, by rw [words, shown]⟩

/-- Each side of a coin is shown for half of the multiples, up to less than three. -/
theorem abs_card_draw_sub_lt_of_coin :
    |(((Finset.range (2 ^ 53)).filter fun k => draw 1 2 (multiple k) = 2).card : ℚ) -
      2 ^ 53 / (2 : UInt32).toNat| < 3 :=
  (abs_card_draw_sub_lt (by decide) (by decide)).1

end Dice

end DiceSampling
