/-
# Sums of floats

Adding floats one after the other rounds after each step, so a sum depends in general on
the order.  It does not if all terms are integers whose magnitudes add up to no more than
`2 ^ 53`: then every step is exact.  A sum of terms that are not negative is not below any
of them, and is in range if they are few.
-/

import DiceSampling.Sample.Summary
import DiceSampling.Proofs.Binary64.Division
import Mathlib.Algebra.Order.BigOperators.Group.List

namespace DiceSampling

open Binary64

variable {α : Type} {f : α → Float} {l : List α} {start : Float}

/-- No step of a sum of integers rounds while their magnitudes stay within a mantissa. -/
theorem value?_foldl_add_of_integers {g : α → ℤ}
    (terms : ∀ a ∈ l, value? (f a) = some (g a : ℚ)) {z : ℤ} (hstart : value? start = some (z : ℚ))
    (small : |z| + (l.map fun a => |g a|).sum ≤ 2 ^ 53) :
    value? ((l.map f).foldl (· + ·) start) = some ((z + (l.map g).sum : ℤ) : ℚ) := by
  induction l generalizing start z with
  | nil =>
      rw [List.map_nil, List.map_nil, List.sum_nil, add_zero]
      exact hstart
  | cons a l ih =>
      simp only [List.map_cons, List.sum_cons, List.foldl_cons, ← add_assoc] at small ⊢
      obtain ⟨first, rest⟩ := List.forall_mem_cons.mp terms
      have triangle := abs_add_le z (g a)
      have nonneg : 0 ≤ (l.map fun a => |g a|).sum :=
        List.sum_nonneg (by simp only [List.mem_map]; rintro _ ⟨b, -, rfl⟩; exact abs_nonneg _)
      have exact : rounded ((z : ℚ) + g a) = ((z + g a : ℤ) : ℚ) := by
        rw [← Int.cast_add]
        exact rounded_of_representable (representable_intCast (by omega))
      have step : value? (start + f a) = some ((z + g a : ℤ) : ℚ) := by
        rw [← exact]
        refine value?_add hstart first (abs_rounded_lt_outOfRange ?_)
        rw [← Int.cast_add]
        exact_mod_cast (show |z + g a| ≤ 2 ^ 53 by omega)
      exact ih rest step (by omega)

/-- The empty sum is a zero. -/
theorem value?_sum_nil : value? (Summary.sum []) = some 0 := by
  have reading : ofFloat (Summary.sum []) = finite true 0 (-1074) := by decide
  rw [value?, reading, toRat?, Nat.cast_zero, zero_mul, signed_zero]

/-- Integers whose magnitudes add up to no more than `2 ^ 53` have their exact sum, whatever
their order. -/
theorem value?_sum_of_integers {g : α → ℤ} (terms : ∀ a ∈ l, value? (f a) = some (g a : ℚ))
    (small : (l.map fun a => |g a|).sum ≤ 2 ^ 53) :
    value? (Summary.sum (l.map f)) = some ((l.map g).sum : ℚ) := by
  have start : value? (-0.0) = some ((0 : ℤ) : ℚ) := by exact_mod_cast value?_sum_nil
  have total := value?_foldl_add_of_integers terms start (by rwa [abs_zero, zero_add])
  rwa [zero_add] at total

/-- Terms that are not negative and not above a power of two never take a sum of few of them
out of the range. -/
theorem exists_value?_foldl_add {g : α → ℚ} {t : ℕ} (bound : t ≤ 900)
    (terms : ∀ a ∈ l, value? (f a) = some (g a)) (range : ∀ a ∈ l, 0 ≤ g a ∧ g a ≤ 2 ^ t)
    {z : ℚ} {k : ℕ} (hstart : value? start = some z) (nonneg : 0 ≤ z) (upper : z ≤ k * 2 ^ t)
    (few : k + l.length ≤ 2 ^ 53) :
    ∃ r, value? ((l.map f).foldl (· + ·) start) = some r ∧ z ≤ r ∧ r ≤ (k + l.length : ℕ) * 2 ^ t ∧
      (∀ a ∈ l, g a ≤ r) ∧ (z = 0 → (∀ a ∈ l, g a = 0) → r = 0) := by
  induction l generalizing start z k with
  | nil => exact ⟨z, hstart, le_rfl, upper, by simp, fun zero _ => zero⟩
  | cons a l ih =>
      obtain ⟨first, rest⟩ := List.forall_mem_cons.mp terms
      obtain ⟨⟨least, most⟩, range'⟩ := List.forall_mem_cons.mp range
      rw [List.length_cons] at few ⊢
      have multiple : Representable ((k + 1 : ℕ) * 2 ^ t) := by
        have h := representable_mul_zpow (n := (k + 1 : ℕ)) (e := t)
          (by rw [abs_of_nonneg] <;> omega) (by omega)
        exact_mod_cast h
      have step : rounded (z + g a) ≤ (k + 1 : ℕ) * 2 ^ t := by
        refine rounded_le multiple ?_
        push_cast
        linarith
      have above : z ≤ rounded (z + g a) :=
        le_rounded (representable_of_value? hstart) (by linarith)
      have above' : g a ≤ rounded (z + g a) :=
        le_rounded (representable_of_value? first) (by linarith)
      have inRange : |rounded (z + g a)| < outOfRange := by
        rw [abs_of_nonneg (nonneg.trans above)]
        refine lt_outOfRange_of_le (t := 53 + t) (by omega) (step.trans ?_)
        rw [pow_add]
        gcongr
        exact_mod_cast (show k + 1 ≤ 2 ^ 53 by omega)
      obtain ⟨r, sum, lower, upper', all, vanishes⟩ := ih rest range'
        (value?_add hstart first inRange) (nonneg.trans above) step (by omega)
      refine ⟨r, sum, above.trans lower, ?_, ?_, fun zero zeros => ?_⟩
      · rwa [show k + (l.length + 1) = k + 1 + l.length by omega]
      · exact List.forall_mem_cons.mpr ⟨above'.trans lower, all⟩
      · obtain ⟨here, later⟩ := List.forall_mem_cons.mp zeros
        exact vanishes (by rw [zero, here, add_zero, rounded_zero]) later

/-- A sum of few terms that are not negative is in range, is not below any of them, and is zero if
they all are. -/
theorem exists_value?_sum {g : α → ℚ} {t : ℕ} (bound : t ≤ 900)
    (terms : ∀ a ∈ l, value? (f a) = some (g a)) (range : ∀ a ∈ l, 0 ≤ g a ∧ g a ≤ 2 ^ t)
    (few : l.length ≤ 2 ^ 53) :
    ∃ r, value? (Summary.sum (l.map f)) = some r ∧ 0 ≤ r ∧ r ≤ l.length * 2 ^ t ∧
      (∀ a ∈ l, g a ≤ r) ∧ ((∀ a ∈ l, g a = 0) → r = 0) := by
  obtain ⟨r, sum, nonneg, upper, all, vanishes⟩ :=
    exists_value?_foldl_add (k := 0) bound terms range value?_sum_nil le_rfl (by simp) (by omega)
  rw [zero_add] at upper
  exact ⟨r, sum, nonneg, upper, all, vanishes rfl⟩

end DiceSampling
