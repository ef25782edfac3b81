/-
# The sum of several pools

A sum of pools is held within 64 bits at two levels: after every die of a pool, and again
after every pool.  No face is negative, and so holding the sum twice is holding it once: the
sum is that of one loop over all dice, in the order that they are rolled.  Two pools of equal
dice over one source then cannot be told from one pool of them all.
-/

import DiceSampling.Proofs.EagerPipeline
import DiceSampling.Proofs.PoolTotals

namespace DiceSampling

variable {σ : Type}

namespace Dice

/-- Faces that are summed apart and then added are added one after the other.  From below
zero this fails: what the separate sum loses at the end of the range may be missed later. -/
theorem add_foldl_addFace {total : Int64} (nonneg : 0 ≤ total.toInt) (faces : List UInt32) :
    Clamped.add total (faces.foldl addFace 0) = faces.foldl addFace total := by
  have least : Int64.minValue.toInt ≤ 0 := by decide
  have greatest : 0 ≤ Int64.maxValue.toInt := by decide
  rw [← Int64.toInt_inj, Clamped.toInt_add, toInt_foldl_addFace_zero, toInt_foldl_addFace]
  omega

theorem toInt_foldl_addFace_nonneg {total : Int64} (nonneg : 0 ≤ total.toInt)
    (faces : List UInt32) : 0 ≤ (faces.foldl addFace total).toInt := by
  have greatest : 0 ≤ Int64.maxValue.toInt := by decide
  rw [toInt_foldl_addFace]
  exact le_min greatest (by positivity)

/-- Adding the sums of several pools is adding all faces, pool after pool. -/
theorem foldl_add_map_foldl_addFace {total : Int64} (nonneg : 0 ≤ total.toInt)
    (pools : List (List UInt32)) :
    (pools.map (List.foldl addFace 0)).foldl Clamped.add total =
      pools.flatten.foldl addFace total := by
  induction pools generalizing total with
  | nil => rfl
  | cons faces pools ih =>
      rw [List.map_cons, List.foldl_cons, add_foldl_addFace nonneg, List.flatten_cons,
        List.foldl_append]
      exact ih (toInt_foldl_addFace_nonneg nonneg faces)

/-- The dice of a pool can be cut in two anywhere. -/
theorem faces_of_toNat_count_add (source : Source σ) {both first second : UInt32}
    (count : both.toNat = first.toNat + second.toNat) (sides : UInt32) (s : σ) :
    faces source ⟨both, sides⟩ s =
      ((faces source ⟨first, sides⟩ s).1 ++
          (faces source ⟨second, sides⟩ (faces source ⟨first, sides⟩ s).2).1,
        (faces source ⟨second, sides⟩ (faces source ⟨first, sides⟩ s).2).2) := by
  rw [faces, count, List.replicate_add, List.mapM_append]
  rfl

end Dice

namespace Roll

/-- The total of a roll that has dice of its own and no evaluator. -/
theorem total_of_not_isDerived {roll : Roll σ} (plain : roll.isDerived = false)
    (dice : roll.spec.count ≠ 0) (s : σ) :
    roll.total s = (.ok ((roll.faces s).1.foldl Dice.addFace 0), (roll.faces s).2) := by
  obtain ⟨spec, source, evaluator⟩ := roll
  cases evaluator with
  | some evaluator => cases plain
  | none => exact Dice.total_eq source dice s

end Roll

/-- The totals of several pools are the sums of the faces that they show, in order. -/
theorem Eager.totals_of_pools {rolls : List (Roll σ)}
    (pools : ∀ roll ∈ rolls, roll.isDerived = false ∧ roll.spec.count ≠ 0) (s : σ) :
    Eager.totals rolls s =
      (.ok ((rolls.mapM Roll.faces s).1.map (List.foldl Dice.addFace 0)),
        (rolls.mapM Roll.faces s).2) := by
  induction rolls generalizing s with
  | nil => rfl
  | cons roll rolls ih =>
      obtain ⟨⟨plain, dice⟩, others⟩ := List.forall_mem_cons.mp pools
      rw [Eager.totals, Roll.total_of_not_isDerived plain dice, Outcome.andThen, ih others,
        mapM_cons_apply]
      rfl

namespace Pipeline

/-- A pipeline of some rolls and one combination. -/
theorem total_combine (spare : Source σ) {rolls : List (Roll σ)} (nonempty : rolls ≠ [])
    (combine : Combine) (s : σ) :
    Pipeline.total spare (operands rolls [.combine combine]) s =
      Outcome.map (List.foldl combine.aggregate combine.initial) (Eager.totals rolls s) := by
  obtain ⟨first, rest, rfl⟩ := List.exists_cons_of_ne_nil nonempty
  rw [Pipeline.total, filterMap_roll?_operands, filterMap_modifier?_operands]
  exact Eager.total_combine combine (first :: rest) s

/-- The sum of pools is one sum over all their faces. -/
theorem total_sum {rolls : List (Roll σ)} (spare : Source σ) (nonempty : rolls ≠ [])
    (pools : ∀ roll ∈ rolls, roll.isDerived = false ∧ roll.spec.count ≠ 0) (s : σ) :
    Pipeline.total spare (operands rolls [.combine .sum]) s =
      (.ok ((rolls.mapM Roll.faces s).1.flatten.foldl Dice.addFace 0),
        (rolls.mapM Roll.faces s).2) := by
  rw [total_combine spare nonempty, Eager.totals_of_pools pools, Outcome.map]
  exact congrArg (fun total => (Except.ok total, _))
    (Dice.foldl_add_map_foldl_addFace (Int64.toInt_zero.ge) _)

/-- Two pools of equal dice over one source are one pool. -/
theorem total_sum_of_toNat_count_add (spare source : Source σ) {both first second : UInt32}
    (count : both.toNat = first.toNat + second.toNat) (someFirst : first ≠ 0)
    (someSecond : second ≠ 0) (sides : UInt32) (s : σ) :
    Pipeline.total spare (operands
        [.plain ⟨first, sides⟩ source, .plain ⟨second, sides⟩ source] [.combine .sum]) s =
      (Roll.plain ⟨both, sides⟩ source).total s := by
  have someBoth : both ≠ 0 := by
    rintro rfl
    rw [UInt32.toNat_zero] at count
    exact someFirst (UInt32.toNat_inj.mp (Nat.eq_zero_of_add_eq_zero_right count.symm))
  have pools : ∀ roll ∈ [Roll.plain ⟨first, sides⟩ source, .plain ⟨second, sides⟩ source],
      roll.isDerived = false ∧ roll.spec.count ≠ 0 := by
    simp [Roll.plain, Roll.isDerived, someFirst, someSecond]
  have shown : [Roll.plain ⟨first, sides⟩ source, .plain ⟨second, sides⟩ source].mapM
        Roll.faces s =
      ([(Dice.faces source ⟨first, sides⟩ s).1,
          (Dice.faces source ⟨second, sides⟩ (Dice.faces source ⟨first, sides⟩ s).2).1],
        (Dice.faces source ⟨second, sides⟩ (Dice.faces source ⟨first, sides⟩ s).2).2) := by
    rw [mapM_cons_apply, mapM_cons_apply]
    rfl
  rw [total_sum spare (List.cons_ne_nil _ _) pools, Roll.total_plain,
    Dice.total_eq source someBoth, Dice.faces_of_toNat_count_add source count, shown]
  simp

/-- A pipeline that sums pools of dice has a total: the exact sum of all faces that they show
one after the other, held within 64 bits. So two pools of equal dice over one source have the
total of one pool of them all, and leave the same state. -/
theorem total_sum_pools (spare : Source σ) :
    (∀ (rolls : List (Roll σ)) (s : σ), rolls ≠ [] →
      (∀ roll ∈ rolls, roll.isDerived = false ∧ roll.spec.count ≠ 0) →
      ∃ total,
        Pipeline.total spare (operands rolls [.combine .sum]) s =
          (.ok total, (rolls.mapM Roll.faces s).2) ∧
        total.toInt = min Int64.maxValue.toInt
          (((rolls.mapM Roll.faces s).1.flatten.map UInt32.toNat).sum : ℤ)) ∧
    ∀ (source : Source σ) (first second sides : UInt32) (s : σ), first ≠ 0 → second ≠ 0 →
      first.toNat + second.toNat < UInt32.size →
      Pipeline.total spare (operands
          [.plain ⟨first, sides⟩ source, .plain ⟨second, sides⟩ source] [.combine .sum]) s =
        (Roll.plain ⟨first + second, sides⟩ source).total s := by
  constructor
  · intro rolls s nonempty pools
    exact ⟨_, total_sum spare nonempty pools s, Dice.toInt_foldl_addFace_zero _⟩
  · intro source first second sides s someFirst someSecond fits
    have count : (first + second).toNat = first.toNat + second.toNat := by
      rw [UInt32.toNat_add, Nat.mod_eq_of_lt fits]
    exact total_sum_of_toNat_count_add spare source count someFirst someSecond sides s

/-- Two dice of six sides and one of eight, from sources that write their numbers into one
log, and three dice of six sides in place of two and one. -/
theorem total_sum_pools_of_logged_sources :
    Pipeline.total (Source.constant 0.5) (operands
        [.plain ⟨2, 6⟩ ((Source.constant 0.5).logged 1),
          .plain ⟨1, 8⟩ ((Source.constant 0.5).logged 2)] [.combine .sum]) ((), []) =
      (.ok 13, (), [1, 1, 2]) ∧
    Pipeline.total (Source.constant 0.5) (operands
        [.plain ⟨2, 6⟩ ((Source.constant 0.5).logged 1),
          .plain ⟨1, 6⟩ ((Source.constant 0.5).logged 1)] [.combine .sum]) ((), []) =
      (Roll.plain ⟨3, 6⟩ ((Source.constant 0.5).logged 1)).total ((), []) := by
  obtain ⟨sum, joined⟩ := @total_sum_pools (Unit × List ℕ) (Source.constant 0.5)
  refine ⟨?_, joined _ 2 1 6 _ (by decide) (by decide) (by decide)⟩
  obtain ⟨total, ends, value⟩ := sum [.plain ⟨2, 6⟩ ((Source.constant 0.5).logged 1),
    .plain ⟨1, 8⟩ ((Source.constant 0.5).logged 2)] ((), []) (by simp)
    (by simp [Roll.plain, Roll.isDerived])
  have thirteen : total = 13 := Int64.toInt_inj.mp (value.trans (by decide))
  rw [ends, thirteen]
  rfl

end Pipeline

end DiceSampling
