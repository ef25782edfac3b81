/-
# Chains of shifts

Each shift of a chain stops at the ends of the range, and what is cut off there does not come
back when a later shift goes the other way.  Still a chain has a normal form of three numbers:
it adds the exact sum of its amounts, and holds the result between what it makes of the two
ends of the range.
-/

import DiceSampling.Proofs.EagerPipeline
import Mathlib.Algebra.Order.Ring.Int
import Mathlib.Data.List.Induction
import Mathlib.Data.List.Infix
import Mathlib.Tactic.GCongr

namespace DiceSampling

variable {σ : Type}

namespace Shift

/-- What a shift adds to a total, as an exact integer. -/
def amount : Shift → ℤ
  | up delta => delta.toInt
  | down delta => -delta.toInt

/-- What a chain adds to a total if nothing is cut off. -/
def amountAll (shifts : List Shift) : ℤ := (shifts.map amount).sum

/-- A total after a chain of shifts. -/
def applyAll (shifts : List Shift) (total : Int64) : Int64 :=
  shifts.foldl (fun total shift => shift.apply total) total

@[simp] theorem amountAll_append_singleton (shifts : List Shift) (shift : Shift) :
    amountAll (shifts ++ [shift]) = amountAll shifts + shift.amount := by
  simp [amountAll]

@[simp] theorem applyAll_append_singleton (shifts : List Shift) (shift : Shift)
    (total : Int64) :
    applyAll (shifts ++ [shift]) total = shift.apply (applyAll shifts total) := by
  simp [applyAll]

/-- A shift adds its amount exactly and brings the sum to the nearest end of the range. -/
theorem toInt_apply (shift : Shift) (total : Int64) :
    (shift.apply total).toInt =
      max Int64.minValue.toInt (min Int64.maxValue.toInt (total.toInt + shift.amount)) := by
  cases shift with
  | up delta => exact Clamped.toInt_add total delta
  | down delta => exact Clamped.toInt_sub total delta

/-- A number that is held between two others, moved and held within the range, is the moved
number held between what becomes of the two. -/
theorem clamp_clamp_add (least greatest low high x d : ℤ) :
    max least (min greatest (max low (min high x) + d)) =
      max (max least (min greatest (low + d)))
        (min (max least (min greatest (high + d))) (x + d)) := by
  have absorbed : max least (min least (x + d)) = least := max_eq_left (min_le_left _ _)
  calc
    max least (min greatest (max low (min high x) + d))
      = max least (min greatest (max (low + d) (min (high + d) (x + d)))) := by
        rw [← max_add_add_right, ← min_add_add_right]
    _ = max least (max (min greatest (low + d)) (min (min greatest (high + d)) (x + d))) := by
        rw [min_max_distrib_left, min_assoc]
    _ = max (max least (min greatest (low + d)))
          (max (min least (x + d)) (min (min greatest (high + d)) (x + d))) := by
        rw [max_max_max_comm, absorbed]
    _ = max (max least (min greatest (low + d)))
          (min (max least (min greatest (high + d))) (x + d)) := by
        rw [min_max_distrib_right]

/-- A chain adds the sum of its amounts and holds the result between its values at the ends. -/
theorem toInt_applyAll (shifts : List Shift) (total : Int64) :
    (applyAll shifts total).toInt =
      max (applyAll shifts Int64.minValue).toInt
        (min (applyAll shifts Int64.maxValue).toInt (total.toInt + amountAll shifts)) := by
  induction shifts using List.reverseRecOn with
  | nil =>
      have least := Int64.minValue_le_toInt total
      have greatest := Int64.toInt_le total
      simp only [applyAll, amountAll, List.foldl_nil, List.map_nil, List.sum_nil]
      omega
  | append_singleton shifts shift ih =>
      simp only [applyAll_append_singleton, amountAll_append_singleton, toInt_apply]
      rw [ih, clamp_clamp_add, add_assoc]

/-- A chain keeps the order of totals. -/
theorem applyAll_mono (shifts : List Shift) {x y : Int64} (le : x ≤ y) :
    applyAll shifts x ≤ applyAll shifts y := by
  rw [Int64.le_iff_toInt_le] at le ⊢
  rw [toInt_applyAll shifts x, toInt_applyAll shifts y]
  gcongr

/-- Nothing is cut off if every exact partial sum is in the range. -/
theorem toInt_applyAll_of_inRange (shifts : List Shift) (total : Int64)
    (inRange : ∀ before, before <+: shifts →
      Int64.minValue.toInt ≤ total.toInt + amountAll before ∧
        total.toInt + amountAll before ≤ Int64.maxValue.toInt) :
    (applyAll shifts total).toInt = total.toInt + amountAll shifts := by
  induction shifts using List.reverseRecOn with
  | nil => simp [applyAll, amountAll]
  | append_singleton shifts shift ih =>
      have before := ih fun before part =>
        inRange before (part.trans (List.prefix_append shifts [shift]))
      have here := inRange (shifts ++ [shift]) (List.prefix_refl _)
      rw [amountAll_append_singleton] at here ⊢
      rw [applyAll_append_singleton, toInt_apply, before]
      omega

end Shift

namespace Stage

theorem actAll_map_shift (shifts : List Shift) :
    actAll (shifts.map Stage.shift) = Shift.applyAll shifts := by
  funext total
  simp only [actAll, List.foldl_map, act, Shift.applyAll]

theorem map_modifier_map_shift (shifts : List Shift) :
    (shifts.map Stage.shift).map modifier = shifts.map (Modifier.shift (σ := σ)) := by
  simp [Function.comp_def, modifier]

end Stage

/-- A chain acts on the total of the roll that it is applied to. -/
theorem Pipeline.total_shifts (spare : Source σ) (roll : Roll σ) (shifts : List Shift) (s : σ) :
    Pipeline.total spare (operands [roll] (shifts.map Modifier.shift)) s =
      Outcome.map (Shift.applyAll shifts) (roll.total s) := by
  rw [← Stage.map_modifier_map_shift, total_operands, Eager.total_single,
    Stage.actAll_map_shift]

namespace Shift

/-- A pipeline of one roll and a chain of shifts makes of a total what the chain makes of it:
the total and the exact sum of the amounts, held between what the chain makes of the two ends
of the range. So the sum is exact if every partial sum is in the range, the order of totals is
kept, and no step wraps around. -/
theorem chain_normal_form (shifts : List Shift) :
    (∀ (spare : Source σ) (roll : Roll σ) (s : σ),
      Pipeline.total spare (Pipeline.operands [roll] (shifts.map Modifier.shift)) s =
        Outcome.map (applyAll shifts) (roll.total s)) ∧
    (∀ total, (applyAll shifts total).toInt =
      max (applyAll shifts Int64.minValue).toInt
        (min (applyAll shifts Int64.maxValue).toInt (total.toInt + amountAll shifts))) ∧
    (∀ total,
      (∀ before, before <+: shifts →
        Int64.minValue.toInt ≤ total.toInt + amountAll before ∧
          total.toInt + amountAll before ≤ Int64.maxValue.toInt) →
      (applyAll shifts total).toInt = total.toInt + amountAll shifts) ∧
    (∀ x y, x ≤ y → applyAll shifts x ≤ applyAll shifts y) ∧
    ∀ shift ∈ shifts, ∀ total, (shift.apply total).toInt =
      max Int64.minValue.toInt (min Int64.maxValue.toInt (total.toInt + shift.amount)) := by
  refine ⟨?_, toInt_applyAll shifts, toInt_applyAll_of_inRange shifts, ?_, ?_⟩
  · intro spare roll s
    exact Pipeline.total_shifts spare roll shifts s
  · intro x y le
    exact applyAll_mono shifts le
  · intro shift _ total
    exact toInt_apply shift total

/-- Taking away the least amount, which has no opposite, is exact from below zero, and the
chain goes on from there. -/
theorem chain_normal_form_of_least_amount :
    (applyAll [.down Int64.minValue, .down Int64.maxValue] (-1)).toInt = 0 ∧
      applyAll [.down Int64.minValue, .down Int64.maxValue] (-1) ≤
        applyAll [.down Int64.minValue, .down Int64.maxValue] 5 := by
  obtain ⟨-, -, exact, mono, -⟩ :=
    @chain_normal_form Unit [.down Int64.minValue, .down Int64.maxValue]
  refine ⟨(exact (-1) ?_).trans (by decide), mono (-1) 5 (by decide)⟩
  intro before part
  have all : ∀ before ∈ [Shift.down Int64.minValue, .down Int64.maxValue].inits,
      Int64.minValue.toInt ≤ (-1 : Int64).toInt + amountAll before ∧
        (-1 : Int64).toInt + amountAll before ≤ Int64.maxValue.toInt := by decide
  exact all before ((List.mem_inits _ _).mpr part)

/-- What the first shift cuts off does not come back: the exact sum is six. -/
example : applyAll [.up Int64.maxValue, .down Int64.maxValue, .up 5] 1 = 5 := by decide

end Shift

end DiceSampling
