/-
# The highest and the lowest total

The rules that keep the highest and the lowest total differ in the order that they look at
and in nothing else: each keeps one of two totals, the one that comes later in its order, and
starts from the total that comes first.  So the start never shows, and what is kept is the
extreme of the totals that are taken.  A chain of shifts keeps the order, and so it makes no
difference whether the chain acts on every total or on the one that is kept.
-/

import DiceSampling.Proofs.ShiftChains
import Mathlib.Order.Bounds.Defs

namespace DiceSampling

variable {σ : Type}

/-- A rule keeps the later of two totals in an order, and starts from the first of all. -/
structure Combine.Keeps (combine : Combine) (le : Int64 → Int64 → Prop) : Prop where
  trans {a b c : Int64} : le a b → le b c → le a c
  antisymm {a b : Int64} : le a b → le b a → a = b
  chosen (a b : Int64) : combine.aggregate a b = a ∨ combine.aggregate a b = b
  left_le (a b : Int64) : le a (combine.aggregate a b)
  right_le (a b : Int64) : le b (combine.aggregate a b)
  initial_le (a : Int64) : le combine.initial a

namespace Combine

/-- A total that is the last of several in an order. -/
def Last (le : Int64 → Int64 → Prop) (totals : List Int64) (total : Int64) : Prop :=
  total ∈ totals ∧ ∀ other ∈ totals, le other total

theorem keeps_highest : highest.Keeps (· ≤ ·) where
  trans := Int64.le_trans
  antisymm := Int64.le_antisymm
  chosen a b := by
    change (if a ≤ b then b else a) = a ∨ (if a ≤ b then b else a) = b
    split <;> simp
  left_le a b := by
    change a ≤ if a ≤ b then b else a
    split
    · assumption
    · exact Int64.le_refl a
  right_le a b := by
    change b ≤ if a ≤ b then b else a
    split
    · exact Int64.le_refl b
    · exact (Int64.le_total a b).resolve_left ‹_›
  initial_le := Int64.minValue_le

theorem keeps_lowest : lowest.Keeps (fun a b => b ≤ a) where
  trans first second := Int64.le_trans second first
  antisymm first second := Int64.le_antisymm second first
  chosen a b := by
    change (if a ≤ b then a else b) = a ∨ (if a ≤ b then a else b) = b
    split <;> simp
  left_le a b := by
    change (if a ≤ b then a else b) ≤ a
    split
    · exact Int64.le_refl a
    · exact (Int64.le_total a b).resolve_left ‹_›
  right_le a b := by
    change (if a ≤ b then a else b) ≤ b
    split
    · assumption
    · exact Int64.le_refl b
  initial_le := Int64.le_maxValue

namespace Keeps

variable {combine : Combine} {le : Int64 → Int64 → Prop}

/-- Folding from a total keeps the last of it and those that follow. -/
theorem last_foldl (keeps : combine.Keeps le) (total : Int64) (totals : List Int64) :
    Last le (total :: totals) (totals.foldl combine.aggregate total) := by
  induction totals generalizing total with
  | nil =>
      have reflexive : le total total := by
        have kept := keeps.left_le total total
        rcases keeps.chosen total total with h | h <;> rwa [h] at kept
      simp [Last, reflexive]
  | cons next totals ih =>
      obtain ⟨member, bound⟩ := ih (combine.aggregate total next)
      rw [List.foldl_cons]
      constructor
      · rcases List.mem_cons.mp member with here | later
        · rw [here]
          rcases keeps.chosen total next with h | h <;> simp [h]
        · exact List.mem_cons_of_mem _ (List.mem_cons_of_mem _ later)
      · have kept := bound _ List.mem_cons_self
        intro other among
        rcases List.mem_cons.mp among with rfl | among
        · exact keeps.trans (keeps.left_le other next) kept
        rcases List.mem_cons.mp among with rfl | among
        · exact keeps.trans (keeps.right_le total other) kept
        · exact bound other (List.mem_cons_of_mem _ among)

/-- The start does not show. -/
theorem aggregate_initial (keeps : combine.Keeps le) (total : Int64) :
    combine.aggregate combine.initial total = total := by
  rcases keeps.chosen combine.initial total with start | kept
  · have back := keeps.right_le combine.initial total
    rw [start] at back ⊢
    exact keeps.antisymm (keeps.initial_le total) back
  · exact kept

/-- The rule keeps the last of the totals. -/
theorem last_foldl_initial (keeps : combine.Keeps le) {totals : List Int64}
    (nonempty : totals ≠ []) : Last le totals (totals.foldl combine.aggregate combine.initial) := by
  obtain ⟨total, totals, rfl⟩ := List.exists_cons_of_ne_nil nonempty
  rw [List.foldl_cons, keeps.aggregate_initial]
  exact keeps.last_foldl total totals

/-- What keeps the order can act before the rule or after it. -/
theorem foldl_map_initial (keeps : combine.Keeps le) {f : Int64 → Int64}
    (mono : ∀ a b, le a b → le (f a) (f b)) {totals : List Int64} (nonempty : totals ≠ []) :
    (totals.map f).foldl combine.aggregate combine.initial =
      f (totals.foldl combine.aggregate combine.initial) := by
  obtain ⟨member, bound⟩ := keeps.last_foldl_initial nonempty
  have mapped : totals.map f ≠ [] := by simpa using nonempty
  obtain ⟨member', bound'⟩ := keeps.last_foldl_initial mapped
  obtain ⟨other, among, source⟩ := List.mem_map.mp member'
  apply keeps.antisymm
  · rw [← source]
    exact mono _ _ (bound other among)
  · exact bound' _ (List.mem_map_of_mem member)

end Keeps

end Combine

namespace Eager

/-- There is a total for every roll. -/
theorem ne_nil_of_totals_cons {first : Roll σ} {rest : List (Roll σ)} {s s' : σ}
    {taken : List Int64} (h : totals (first :: rest) s = (.ok taken, s')) : taken ≠ [] := by
  rw [totals] at h
  obtain ⟨total, later, -, others⟩ := Outcome.andThen_eq_ok h
  obtain ⟨more, -, rfl⟩ := Outcome.map_eq_ok others
  exact List.cons_ne_nil total more

end Eager

namespace Stage

@[simp] theorem firstCombine_map_shift_append (shifts : List Shift) (combine : Combine) :
    firstCombine (shifts.map shift ++ [.combine combine]) = some (combine, []) := by
  induction shifts with
  | nil => rfl
  | cons first shifts ih => exact ih

@[simp] theorem leading_map_shift_append (shifts : List Shift) (combine : Combine)
    (total : Int64) :
    leading (shifts.map shift ++ [.combine combine]) total = Shift.applyAll shifts total := by
  induction shifts generalizing total with
  | nil => rfl
  | cons first shifts ih => exact ih (first.apply total)

end Stage

namespace Pipeline

variable (spare : Source σ) (first : Roll σ) (rest : List (Roll σ)) (shifts : List Shift) (s : σ)

/-- A combination and then a chain: the chain acts on the value of the fold. -/
theorem total_combine_shifts (combine : Combine) :
    Pipeline.total spare
        (operands (first :: rest) (.combine combine :: shifts.map Modifier.shift)) s =
      Outcome.map
        (fun totals => Shift.applyAll shifts (totals.foldl combine.aggregate combine.initial))
        (Eager.totals (first :: rest) s) := by
  have stages : (Stage.combine combine :: shifts.map Stage.shift).map Stage.modifier =
      Modifier.combine combine :: shifts.map (Modifier.shift (σ := σ)) := by
    rw [List.map_cons, Stage.map_modifier_map_shift, Stage.modifier]
  rw [← stages, total_operands, Eager.total, Stage.firstCombine]
  dsimp only
  rw [Stage.actAll_map_shift]
  congr 1
  funext totals
  rw [Stage.leading_cons_combine, List.map_id]

/-- A chain and then a combination: the fold is over the totals that the chain makes. -/
theorem total_shifts_combine (combine : Combine) :
    Pipeline.total spare
        (operands (first :: rest) (shifts.map Modifier.shift ++ [.combine combine])) s =
      Outcome.map (fun totals =>
          (totals.map (Shift.applyAll shifts)).foldl combine.aggregate combine.initial)
        (Eager.totals (first :: rest) s) := by
  have stages : (shifts.map Stage.shift ++ [Stage.combine combine]).map Stage.modifier =
      shifts.map (Modifier.shift (σ := σ)) ++ [Modifier.combine combine] := by
    rw [List.map_append, Stage.map_modifier_map_shift, List.map_singleton, Stage.modifier]
  have leading : Stage.leading (shifts.map Stage.shift ++ [Stage.combine combine]) =
      Shift.applyAll shifts := funext (Stage.leading_map_shift_append shifts combine)
  rw [← stages, total_operands, Eager.total, Stage.firstCombine_map_shift_append, leading]
  rfl

/-- A chain that keeps the order of a rule can stand before it or after it. -/
theorem total_shifts_combine_comm {combine : Combine} {le : Int64 → Int64 → Prop}
    (keeps : combine.Keeps le)
    (mono : ∀ a b, le a b → le (Shift.applyAll shifts a) (Shift.applyAll shifts b)) :
    Pipeline.total spare
        (operands (first :: rest) (shifts.map Modifier.shift ++ [.combine combine])) s =
      Pipeline.total spare
        (operands (first :: rest) (.combine combine :: shifts.map Modifier.shift)) s := by
  rw [total_shifts_combine, total_combine_shifts]
  apply Outcome.map_congr
  intro totals s' taken
  exact keeps.foldl_map_initial mono (Eager.ne_nil_of_totals_cons taken)

/-- A chain of shifts makes the same of a pipeline before advantage as after it, and so it does
with disadvantage: the same total or fault, and the same state. A fault is that of the first
total that has one. If there is a total for every roll, taken once and in order, then what is
kept is the greatest of them, or the least, and the chain acts on it. -/
theorem total_extreme_shifted :
    (Pipeline.total spare
        (operands (first :: rest) (shifts.map Modifier.shift ++ [.advantage])) s =
      Pipeline.total spare
        (operands (first :: rest) (.advantage :: shifts.map Modifier.shift)) s ∧
    Pipeline.total spare
        (operands (first :: rest) (shifts.map Modifier.shift ++ [.disadvantage])) s =
      Pipeline.total spare
        (operands (first :: rest) (.disadvantage :: shifts.map Modifier.shift)) s) ∧
    (∀ fault s', Eager.totals (first :: rest) s = (.error fault, s') →
      Pipeline.total spare
        (operands (first :: rest) (.advantage :: shifts.map Modifier.shift)) s =
          (.error fault, s') ∧
      Pipeline.total spare
        (operands (first :: rest) (.disadvantage :: shifts.map Modifier.shift)) s =
          (.error fault, s')) ∧
    ∀ totals s', Eager.totals (first :: rest) s = (.ok totals, s') →
      (∃ greatest, IsGreatest {total | total ∈ totals} greatest ∧
        Pipeline.total spare
          (operands (first :: rest) (.advantage :: shifts.map Modifier.shift)) s =
            (.ok (Shift.applyAll shifts greatest), s')) ∧
      ∃ least, IsLeast {total | total ∈ totals} least ∧
        Pipeline.total spare
          (operands (first :: rest) (.disadvantage :: shifts.map Modifier.shift)) s =
            (.ok (Shift.applyAll shifts least), s') := by
  have highest := total_combine_shifts spare first rest shifts s .highest
  have lowest := total_combine_shifts spare first rest shifts s .lowest
  refine ⟨⟨?_, ?_⟩, ?_, ?_⟩
  · exact total_shifts_combine_comm spare first rest shifts s Combine.keeps_highest
      fun _ _ => Shift.applyAll_mono shifts
  · exact total_shifts_combine_comm spare first rest shifts s Combine.keeps_lowest
      fun _ _ => Shift.applyAll_mono shifts
  · intro fault s' stopped
    rw [stopped] at highest lowest
    exact ⟨highest, lowest⟩
  · intro totals s' taken
    have nonempty := Eager.ne_nil_of_totals_cons taken
    rw [taken] at highest lowest
    exact ⟨⟨_, Combine.keeps_highest.last_foldl_initial nonempty, highest⟩,
      ⟨_, Combine.keeps_lowest.last_foldl_initial nonempty, lowest⟩⟩

/-- The higher of two negative totals is kept and raised, and both rolls are taken once.  The
fault of a roll without dice comes through, after the roll before it has been taken. -/
theorem total_extreme_shifted_of_counted_rolls :
    Pipeline.total (Source.constant 0.5)
        (operands [.counted (-7), .counted (-3)] [.advantage, .plus 2]) 0 = (.ok (-1), 2) ∧
      Pipeline.total (Source.constant 0.5)
        (operands [.counted 3, .plain .blank (Source.constant 0.5)] [.advantage, .plus 2]) 0 =
          (.error (.nonPositiveCount 0), 1) := by
  obtain ⟨-, -, kept⟩ := total_extreme_shifted (Source.constant 0.5) (.counted (-7))
    [.counted (-3)] [.up 2] 0
  obtain ⟨-, stopped, -⟩ := total_extreme_shifted (Source.constant 0.5) (.counted 3)
    [.plain .blank (Source.constant 0.5)] [.up 2] 0
  obtain ⟨⟨greatest, ⟨member, bound⟩, total⟩, -⟩ := kept [-7, -3] 2 rfl
  refine ⟨?_, (stopped (.nonPositiveCount 0) 1 rfl).1⟩
  have value : greatest = -3 := by
    rcases List.mem_pair.mp member with rfl | rfl
    · exact absurd (bound (show (-3 : Int64) ∈ [-7, -3] by decide)) (by decide)
    · rfl
  rw [value] at total
  exact total

end Pipeline

end DiceSampling
