/-
# The mean and the variance of dice in theory

The outcomes of dice are the tuples of their faces, each as likely as the others.  One more
die is one more face in front of every tuple, so over all outcomes the mean of the total
grows by the mean of a die, and the variance by its variance.  The formulas of a summary give
these numbers, and with floats the mean is rounded once: what comes before the product with
the number of dice is exact.
-/

import DiceSampling.Proofs.Binary64.Conversion
import DiceSampling.Proofs.Binary64.Division
import DiceSampling.Sample.Summary
import Mathlib.Algebra.BigOperators.Expect
import Mathlib.Algebra.BigOperators.Fin
import Mathlib.Algebra.BigOperators.Intervals
import Mathlib.Data.Fin.Tuple.Finset
import Mathlib.Tactic.NormNum.OfScientific

namespace DiceSampling

open Binary64
open scoped BigOperators

/-- The outcomes of some dice: a face for each of them. -/
def outcomes (count sides : ℕ) : Finset (Fin count → ℕ) :=
  Fintype.piFinset fun _ => Finset.Icc 1 sides

/-- The sum of the faces. -/
def faceSum {count : ℕ} (faces : Fin count → ℕ) : ℚ := ∑ i, (faces i : ℚ)

section Outcomes

variable {count sides : ℕ}

theorem card_outcomes (count sides : ℕ) : (outcomes count sides).card = sides ^ count := by
  rw [outcomes, Fintype.card_piFinset_const, Nat.card_Icc, Nat.add_sub_cancel]

theorem nonempty_outcomes (count : ℕ) (positive : 0 < sides) : (outcomes count sides).Nonempty := by
  rw [← Finset.card_pos, card_outcomes]
  exact Nat.pow_pos positive

theorem nonempty_faces (positive : 0 < sides) : (Finset.Icc 1 sides).Nonempty :=
  Finset.nonempty_Icc.mpr positive

theorem faceSum_cons (face : ℕ) (others : Fin count → ℕ) :
    faceSum (Fin.cons face others) = face + faceSum others := by
  simp [faceSum, Fin.sum_univ_succ]

/-- The mean over the outcomes of one more die, taken over its faces last. -/
theorem expect_outcomes_succ (f : (Fin (count + 1) → ℕ) → ℚ) :
    𝔼 faces ∈ outcomes (count + 1) sides, f faces =
      𝔼 face ∈ Finset.Icc 1 sides, 𝔼 others ∈ outcomes count sides, f (Fin.cons face others) := by
  rw [← Finset.expect_product']
  refine Finset.expect_equiv (Fin.consEquiv fun _ => ℕ).symm (fun faces => ?_) fun faces _ => ?_
  · rw [outcomes, Fin.mem_piFinset_iff_zero_tail, Finset.mem_product]
    rfl
  · exact congrArg f (Fin.cons_self_tail faces).symm

end Outcomes

section Die

variable {sides : ℕ}

theorem sum_faces (sides : ℕ) :
    ∑ face ∈ Finset.Icc 1 sides, (face : ℚ) = sides * (sides + 1) / 2 := by
  induction sides with
  | zero => simp
  | succ sides ih =>
      rw [Finset.sum_Icc_succ_top (by omega), ih]
      push_cast
      ring

theorem sum_sq_faces (sides : ℕ) :
    ∑ face ∈ Finset.Icc 1 sides, (face : ℚ) ^ 2 = sides * (sides + 1) * (2 * sides + 1) / 6 := by
  induction sides with
  | zero => simp
  | succ sides ih =>
      rw [Finset.sum_Icc_succ_top (by omega), ih]
      push_cast
      ring

variable (positive : 0 < sides)
include positive

theorem expect_face : 𝔼 face ∈ Finset.Icc 1 sides, (face : ℚ) = (1 + sides) / 2 := by
  have nonzero : (sides : ℚ) ≠ 0 := by positivity
  rw [Finset.expect_eq_sum_div_card, sum_faces, Nat.card_Icc, Nat.add_sub_cancel]
  field_simp
  ring

theorem expect_sq_face_sub :
    𝔼 face ∈ Finset.Icc 1 sides, ((face : ℚ) - (1 + sides) / 2) ^ 2 =
      ((sides : ℚ) ^ 2 - 1) / 12 := by
  have nonzero : (sides : ℚ) ≠ 0 := by positivity
  have expanded : ∑ face ∈ Finset.Icc 1 sides, ((face : ℚ) - (1 + sides) / 2) ^ 2 =
      ∑ face ∈ Finset.Icc 1 sides, (face : ℚ) ^ 2 -
        (1 + sides) * ∑ face ∈ Finset.Icc 1 sides, (face : ℚ) +
        sides * ((1 + sides) / 2) ^ 2 := by
    rw [Finset.mul_sum, ← Finset.sum_sub_distrib]
    have constant : (sides : ℚ) * ((1 + sides) / 2) ^ 2 =
        ∑ _face ∈ Finset.Icc 1 sides, ((1 + sides : ℚ) / 2) ^ 2 := by
      rw [Finset.sum_const, Nat.card_Icc, Nat.add_sub_cancel, nsmul_eq_mul]
    rw [constant, ← Finset.sum_add_distrib]
    exact Finset.sum_congr rfl fun face _ => by ring
  rw [Finset.expect_eq_sum_div_card, expanded, sum_faces, sum_sq_faces, Nat.card_Icc,
    Nat.add_sub_cancel]
  field_simp
  ring

end Die

section Dice

variable {sides : ℕ} (positive : 0 < sides)
include positive

/-- One more die adds its mean. -/
theorem expect_faceSum (count : ℕ) :
    𝔼 faces ∈ outcomes count sides, faceSum faces = count * (1 + sides) / 2 := by
  induction count with
  | zero => simp [faceSum]
  | succ count ih =>
      have inner (face : ℕ) : 𝔼 others ∈ outcomes count sides, faceSum (Fin.cons face others) =
          face + count * (1 + sides) / 2 := by
        simp only [faceSum_cons]
        rw [Finset.expect_add_distrib, Finset.expect_const (nonempty_outcomes count positive), ih]
      simp only [expect_outcomes_succ, inner]
      rw [Finset.expect_add_distrib, Finset.expect_const (nonempty_faces positive),
        expect_face positive]
      push_cast
      ring

theorem expect_faceSum_sub (count : ℕ) :
    𝔼 faces ∈ outcomes count sides, (faceSum faces - count * (1 + sides) / 2) = 0 := by
  rw [Finset.expect_sub_distrib, expect_faceSum positive,
    Finset.expect_const (nonempty_outcomes count positive), sub_self]

/-- One more die adds its variance: its distance from the mean times that of the others has
mean zero. -/
theorem expect_sq_faceSum_sub (count : ℕ) :
    𝔼 faces ∈ outcomes count sides, (faceSum faces - count * (1 + sides) / 2) ^ 2 =
      count * ((sides : ℚ) ^ 2 - 1) / 12 := by
  induction count with
  | zero => simp [faceSum]
  | succ count ih =>
      have inner (face : ℕ) :
          𝔼 others ∈ outcomes count sides,
            (faceSum (Fin.cons face others) - (count + 1 : ℕ) * (1 + sides) / 2) ^ 2 =
          ((face : ℚ) - (1 + sides) / 2) ^ 2 + count * ((sides : ℚ) ^ 2 - 1) / 12 := by
        have expanded (others : Fin count → ℕ) :
            (faceSum (Fin.cons face others) - (count + 1 : ℕ) * (1 + sides) / 2) ^ 2 =
            ((face : ℚ) - (1 + sides) / 2) ^ 2 +
              2 * ((face : ℚ) - (1 + sides) / 2) * (faceSum others - count * (1 + sides) / 2) +
              (faceSum others - count * (1 + sides) / 2) ^ 2 := by
          rw [faceSum_cons]
          push_cast
          ring
        simp only [expanded]
        rw [Finset.expect_add_distrib, Finset.expect_add_distrib,
          Finset.expect_const (nonempty_outcomes count positive), ← Finset.mul_expect,
          expect_faceSum_sub positive, ih, mul_zero, add_zero]
      simp only [expect_outcomes_succ, inner]
      rw [Finset.expect_add_distrib, Finset.expect_const (nonempty_faces positive),
        expect_sq_face_sub positive]
      push_cast
      ring

end Dice

namespace Summary

/-- The formula of the mean, in exact numbers. -/
theorem diceMean_eq (count sides : ℚ) : diceMean count sides = count * (1 + sides) / 2 := by
  norm_num [diceMean, dieMean]
  ring

/-- The formula of the variance, in exact numbers. -/
theorem diceVariance_eq (count sides : ℚ) :
    diceVariance count sides = count * (sides ^ 2 - 1) / 12 := by
  norm_num [diceVariance, dieVariance]
  ring

/-- The mean of a die is a multiple of one half, and not rounded. -/
theorem value?_dieMean (sides : UInt32) :
    value? (dieMean sides.toFloat) = some ((1 + (sides.toNat : ℚ)) / 2) := by
  have bound := sides.toNat_lt
  have few : (sides.toNat : ℚ) ≤ 2 ^ 32 := by exact_mod_cast bound.le
  have whole : Representable (1 + (sides.toNat : ℚ)) := by
    exact_mod_cast representable_natCast (n := 1 + sides.toNat) (by omega)
  have half : Representable ((1 + (sides.toNat : ℚ)) / 2) := by
    have halves := representable_mul_zpow (n := 1 + sides.toNat) (e := -1)
      (abs_le.mpr (by omega)) (by norm_num)
    rwa [zpow_neg_one, ← div_eq_mul_inv, Int.cast_add, Int.cast_one, Int.cast_natCast] at halves
  have sum := value?_add value?_one (value?_toFloat sides) (abs_rounded_lt_outOfRange (by
    rw [abs_of_nonneg (by positivity)]
    linarith))
  rw [rounded_of_representable whole] at sum
  rw [← rounded_of_representable half]
  refine value?_div sum value?_two two_ne_zero (abs_rounded_lt_outOfRange ?_)
  rw [abs_of_nonneg (by positivity)]
  linarith

/-- The product with the number of dice is rounded, and nothing else. -/
theorem value?_diceMean (count sides : UInt32) :
    value? (diceMean count.toFloat sides.toFloat) =
      some (rounded (count.toNat * (1 + (sides.toNat : ℚ)) / 2)) := by
  have few : (count.toNat : ℚ) ≤ 2 ^ 32 := by exact_mod_cast count.toNat_lt.le
  have few' : (sides.toNat : ℚ) ≤ 2 ^ 32 := by exact_mod_cast sides.toNat_lt.le
  rw [mul_div_assoc]
  refine value?_mul (value?_toFloat count) (value?_dieMean sides)
    (lt_outOfRange_of_le (by norm_num) (abs_rounded_le (representable_two_pow 64) ?_))
  rw [abs_of_nonneg (by positivity)]
  calc
    (count.toNat : ℚ) * ((1 + sides.toNat) / 2) ≤ 2 ^ 32 * 2 ^ 32 := by
      gcongr
      linarith
    _ = 2 ^ 64 := by norm_num

/-- Dice have no summary exactly if there are none or they have no faces. Otherwise the mean
and the variance of the total over all `sides ^ count` outcomes are what the formulas give in
exact numbers, and the mean with floats is the float nearest to the exact one. -/
theorem expected_moments (spec : Spec) :
    (expected spec = none ↔ spec.count = 0 ∨ spec.sides = 0) ∧
    (spec.count ≠ 0 → spec.sides ≠ 0 →
      let count := spec.count.toNat
      let sides := spec.sides.toNat
      let mean : ℚ := count * (1 + sides) / 2
      let variance : ℚ := count * (sides ^ 2 - 1) / 12
      (outcomes count sides).card = sides ^ count ∧
      𝔼 faces ∈ outcomes count sides, faceSum faces = mean ∧
      𝔼 faces ∈ outcomes count sides, (faceSum faces - mean) ^ 2 = variance ∧
      diceMean (count : ℚ) sides = mean ∧ diceVariance (count : ℚ) sides = variance ∧
      ∃ summary, expected spec = some summary ∧
        summary.mean = diceMean spec.count.toFloat spec.sides.toFloat ∧
        summary.stdDev = Float.sqrt (diceVariance spec.count.toFloat spec.sides.toFloat) ∧
        value? summary.mean = some (rounded mean)) := by
  constructor
  · unfold expected
    split_ifs with blank <;> simp [blank]
  · intro dice faces
    have positive : 0 < spec.sides.toNat :=
      Nat.pos_of_ne_zero fun zero => faces (UInt32.toNat_inj.mp zero)
    refine ⟨card_outcomes _ _, expect_faceSum positive _, expect_sq_faceSum_sub positive _,
      diceMean_eq _ _, diceVariance_eq _ _, _, if_neg (not_or.mpr ⟨dice, faces⟩), rfl, rfl,
      value?_diceMean _ _⟩

/-- Two dice of six faces. -/
theorem expected_moments_of_two_dice :
    (2 : UInt32) ≠ 0 ∧ (6 : UInt32) ≠ 0 ∧ (outcomes 2 6).card = 36 ∧
    𝔼 faces ∈ outcomes 2 6, faceSum faces = 7 ∧
    𝔼 faces ∈ outcomes 2 6, (faceSum faces - 7) ^ 2 = 35 / 6 ∧
    ∃ summary, expected ⟨2, 6⟩ = some summary ∧ value? summary.mean = some 7 := by
  have dice : (2 : UInt32) ≠ 0 := by decide
  have faces : (6 : UInt32) ≠ 0 := by decide
  obtain ⟨card, mean, variance, -, -, summary, there, -, -, value⟩ :=
    (expected_moments ⟨2, 6⟩).2 dice faces
  have seven : ((2 : ℕ) : ℚ) * (1 + (6 : ℕ)) / 2 = 7 := by norm_num
  have spread : ((2 : ℕ) : ℚ) * (((6 : ℕ) : ℚ) ^ 2 - 1) / 12 = 35 / 6 := by norm_num
  have exact : rounded 7 = 7 :=
    rounded_of_representable (representable_natCast (n := 7) (by decide))
  simp only [UInt32.reduceToNat, seven, spread, exact] at card mean variance value
  exact ⟨dice, faces, card, mean, variance, summary, there, value⟩

end Summary

end DiceSampling
