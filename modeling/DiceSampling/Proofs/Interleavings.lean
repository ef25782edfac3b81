/-
# Rolls and modifiers in any order

A pipeline may mix its rolls and modifiers in any way that keeps each kind in its own order:
its total, its fault and the state it leaves are the same.  Whether there is a roll is looked
at twice.  Without one there is no total, whatever the modifiers would make of an empty list;
and there is none if the modifiers leave no roll.

The spare source is that of a combination of no rolls, and it is a new one in every pipeline.
Nobody can tell which source it is as long as no modifier looks at more of a roll than its
total.
-/

import DiceSampling.Proofs.EagerPipeline

namespace DiceSampling

variable {σ : Type}

/-- Some rolls and some modifiers mixed into one list, each kind in its order. -/
inductive Interleaving : List (Roll σ) → List (Modifier σ) → List (Operand σ) → Prop
  | nil : Interleaving [] [] []
  | roll {rolls : List (Roll σ)} {modifiers : List (Modifier σ)} {operands : List (Operand σ)}
    (first : Roll σ) (rest : Interleaving rolls modifiers operands) :
    Interleaving (first :: rolls) modifiers (.roll first :: operands)
  | modifier {rolls : List (Roll σ)} {modifiers : List (Modifier σ)}
    {operands : List (Operand σ)} (first : Modifier σ)
    (rest : Interleaving rolls modifiers operands) :
    Interleaving rolls (first :: modifiers) (.modifier first :: operands)

namespace Interleaving

variable {rolls : List (Roll σ)} {modifiers : List (Modifier σ)} {operands : List (Operand σ)}

/-- What is found of each kind in a mixed list is what was mixed. -/
theorem filterMap_eq (mixed : Interleaving rolls modifiers operands) :
    operands.filterMap Operand.roll? = rolls ∧
      operands.filterMap Operand.modifier? = modifiers := by
  induction mixed with
  | nil => exact ⟨rfl, rfl⟩
  | roll first rest ih => exact ⟨congrArg (first :: ·) ih.1, ih.2⟩
  | modifier first rest ih => exact ⟨ih.1, congrArg (first :: ·) ih.2⟩

/-- Every list of operands mixes the rolls and the modifiers in it. -/
theorem of_operands (operands : List (Operand σ)) :
    Interleaving (operands.filterMap Operand.roll?) (operands.filterMap Operand.modifier?)
      operands := by
  induction operands with
  | nil => exact nil
  | cons operand operands ih =>
      cases operand with
      | roll first => exact ih.roll first
      | modifier first => exact ih.modifier first

/-- A list mixes just the rolls and the modifiers in it. -/
theorem iff_filterMap_eq :
    Interleaving rolls modifiers operands ↔
      operands.filterMap Operand.roll? = rolls ∧
        operands.filterMap Operand.modifier? = modifiers := by
  constructor
  · exact filterMap_eq
  · rintro ⟨rfl, rfl⟩
    exact of_operands operands

end Interleaving

/-- A combination folds what the totals of its rolls give. -/
theorem Combine.total_eq_foldlM (combine : Combine) (rolls : List (Roll σ)) :
    combine.total rolls =
      (rolls.map Roll.total).foldlM
        (fun soFar total => do return combine.aggregate soFar (← total)) combine.initial := by
  rw [List.foldlM_map]
  rfl

namespace Modifier

/-- A modifier that sees of the rolls only their totals: those of the rolls it makes depend
on nothing else.  Shifts and combinations are such. -/
def SeesTotals : Modifier σ → Prop
  | custom change =>
    ∃ act : List (Act σ Int64) → List (Act σ Int64),
      ∀ rolls, (change rolls).map Roll.total = act (rolls.map Roll.total)
  | _ => True

theorem seesTotals_reverse : (reverse : Modifier σ).SeesTotals :=
  ⟨List.reverse, fun _ => List.map_reverse⟩

theorem seesTotals_dropFirst : (dropFirst : Modifier σ).SeesTotals :=
  ⟨List.tail, fun _ => List.map_tail⟩

theorem seesTotals_double : (double : Modifier σ).SeesTotals :=
  ⟨fun totals => totals ++ totals, fun _ => List.map_append⟩

theorem seesTotals_take (n : ℕ) : (take n : Modifier σ).SeesTotals :=
  ⟨List.take n, fun _ => List.map_take⟩

theorem seesTotals_replace (others : List (Roll σ)) : (replace others).SeesTotals :=
  ⟨fun _ => others.map Roll.total, fun _ => rfl⟩

theorem seesTotals_clear : (clear : Modifier σ).SeesTotals :=
  seesTotals_replace []

variable {modifiers : List (Modifier σ)}

/-- The totals after a modifier that sees only totals are the same with any spare source. -/
theorem SeesTotals.exists_act {modifier : Modifier σ} (sees : modifier.SeesTotals) :
    ∃ act : List (Act σ Int64) → List (Act σ Int64),
      ∀ spare rolls, (modifier.apply spare rolls).map Roll.total = act (rolls.map Roll.total) := by
  cases modifier with
  | shift shift =>
      refine ⟨List.map fun total => do return shift.apply (← total), fun spare rolls => ?_⟩
      rw [apply, List.map_map, List.map_map]
      rfl
  | combine combine =>
      refine ⟨fun totals => [totals.foldlM (fun soFar total => do
        return combine.aggregate soFar (← total)) combine.initial], fun spare rolls => ?_⟩
      rw [apply, List.map_singleton, Combine.roll, Roll.total_derive, combine.total_eq_foldlM]
  | custom change =>
      obtain ⟨act, same⟩ := sees
      exact ⟨act, fun spare => same⟩

/-- The same of several modifiers, one after the other. -/
theorem exists_act_applyAll (sees : ∀ modifier ∈ modifiers, modifier.SeesTotals) :
    ∃ act : List (Act σ Int64) → List (Act σ Int64),
      ∀ spare rolls,
        (applyAll spare modifiers rolls).map Roll.total = act (rolls.map Roll.total) := by
  induction modifiers with
  | nil => exact ⟨id, fun spare rolls => rfl⟩
  | cons first rest ih =>
      obtain ⟨here, others⟩ := List.forall_mem_cons.mp sees
      obtain ⟨act, first_eq⟩ := here.exists_act
      obtain ⟨later, rest_eq⟩ := ih others
      refine ⟨later ∘ act, fun spare rolls => ?_⟩
      calc (applyAll spare (first :: rest) rolls).map Roll.total
          = later ((first.apply spare rolls).map Roll.total) := rest_eq spare _
        _ = later (act (rolls.map Roll.total)) := congrArg later (first_eq spare rolls)

end Modifier

/-- The total of the first of some rolls is the first of their totals. -/
theorem Roll.firstTotal_eq (rolls : List (Roll σ)) :
    firstTotal rolls = (rolls.map total).head?.getD (throw .noRolls) := by
  cases rolls <;> rfl

namespace Pipeline

variable {rolls : List (Roll σ)} {modifiers : List (Modifier σ)}
  {operands other : List (Operand σ)}

/-- A pipeline without rolls leaves the state as it is. -/
theorem total_of_nil (mixed : Interleaving [] modifiers operands) (spare : Source σ) (s : σ) :
    total spare operands s = (.error .noRolls, s) := by
  rw [total_of_no_rolls spare mixed.filterMap_eq.1]
  rfl

/-- The modifiers of a pipeline with rolls act on all of them, one after the other. -/
theorem total_of_ne_nil (mixed : Interleaving rolls modifiers operands) (nonempty : rolls ≠ [])
    (spare : Source σ) :
    total spare operands = Roll.firstTotal (Modifier.applyAll spare modifiers rolls) := by
  obtain ⟨first, rest, rfl⟩ := List.exists_cons_of_ne_nil nonempty
  rw [total, mixed.filterMap_eq.1, mixed.filterMap_eq.2]

/-- No spare source shows through modifiers that see only totals. -/
theorem total_spare_congr (mixed : Interleaving rolls modifiers operands)
    (mixed' : Interleaving rolls modifiers other)
    (sees : ∀ modifier ∈ modifiers, modifier.SeesTotals) (spare spare' : Source σ) :
    total spare operands = total spare' other := by
  by_cases noRolls : rolls = []
  · subst noRolls
    funext s
    rw [total_of_nil mixed, total_of_nil mixed']
  · obtain ⟨act, same⟩ := Modifier.exists_act_applyAll sees
    rw [total_of_ne_nil mixed noRolls, total_of_ne_nil mixed' noRolls, Roll.firstTotal_eq,
      Roll.firstTotal_eq, same, same]

/-- Two pipelines that mix the same rolls and the same modifiers end in the same way from every
state: with the same total or fault, and in the same state. Without a roll both end in a fault
and leave the state alone. With rolls the total is that of the first roll that the modifiers
leave, and it is again a fault that touches nothing if they leave none. Modifiers that see only
totals do not let the spare source show. -/
theorem total_of_interleaving (mixed : Interleaving rolls modifiers operands)
    (mixed' : Interleaving rolls modifiers other) (s : σ) :
    (∀ spare, total spare operands s = total spare other s) ∧
    (rolls = [] → ∀ spare, total spare operands s = (.error .noRolls, s)) ∧
    (rolls ≠ [] → ∀ spare,
      (Modifier.applyAll spare modifiers rolls = [] →
        total spare operands s = (.error .noRolls, s)) ∧
      ∀ first rest, Modifier.applyAll spare modifiers rolls = first :: rest →
        total spare operands s = first.total s) ∧
    ((∀ modifier ∈ modifiers, modifier.SeesTotals) → ∀ spare spare',
      total spare operands s = total spare' other s) := by
  refine ⟨fun spare => ?_, ?_, fun nonempty spare => ⟨fun gone => ?_, fun first rest left => ?_⟩,
    ?_⟩
  · by_cases noRolls : rolls = []
    · subst noRolls
      rw [total_of_nil mixed, total_of_nil mixed']
    · rw [total_of_ne_nil mixed noRolls, total_of_ne_nil mixed' noRolls]
  · rintro rfl spare
    exact total_of_nil mixed spare s
  · rw [total_of_ne_nil mixed nonempty, gone]
    rfl
  · rw [total_of_ne_nil mixed nonempty, left]
    rfl
  · intro sees spare spare'
    rw [total_spare_congr mixed mixed' sees spare spare']

/-- Two rolls that are raised, turned round and moved about: the one that ends up in front is
taken, once, wherever the modifiers stand.  Cleared rolls are a fault, and so is a pipeline
without rolls, although its modifier would put a roll in. -/
theorem total_of_interleaving_of_counted_rolls :
    total (Source.constant 0.5) [.modifier (.plus 1), .roll (.counted 3), .modifier .reverse,
        .modifier .double, .roll (.counted 7), .modifier .dropFirst, .modifier (.take 2)] 0 =
      (.ok 4, 1) ∧
    total (Source.constant 0.5) [.modifier .clear, .roll (.counted 3)] 0 =
      (.error .noRolls, 0) ∧
    total (Source.constant 0.5) [.modifier (.replace [.counted 3])] 0 =
      (.error .noRolls, 0) := by
  have mixed := Interleaving.of_operands (σ := ℕ) [.modifier (.plus 1), .roll (.counted 3),
    .modifier .reverse, .modifier .double, .roll (.counted 7), .modifier .dropFirst,
    .modifier (.take 2)]
  have mixed' := Interleaving.of_operands (σ := ℕ) [.roll (.counted 3), .roll (.counted 7),
    .modifier (.plus 1), .modifier .reverse, .modifier .double, .modifier .dropFirst,
    .modifier (.take 2)]
  have sees : ∀ modifier ∈ [.plus 1, .reverse, .double, .dropFirst, .take 2],
      Modifier.SeesTotals (σ := ℕ) modifier := by
    simp only [List.forall_mem_cons, List.not_mem_nil, false_imp_iff, implies_true, and_true]
    exact ⟨trivial, Modifier.seesTotals_reverse, Modifier.seesTotals_double,
      Modifier.seesTotals_dropFirst, Modifier.seesTotals_take 2⟩
  have cleared := Interleaving.of_operands (σ := ℕ) [.modifier .clear, .roll (.counted 3)]
  have empty := Interleaving.of_operands (σ := ℕ) [.modifier (.replace [.counted 3])]
  refine ⟨?_, ?_, ?_⟩
  · obtain ⟨-, -, -, anySpare⟩ := total_of_interleaving mixed mixed' 0
    exact (anySpare sees (Source.constant 0.5) (Source.constant 0.25)).trans rfl
  · obtain ⟨-, -, left, -⟩ := total_of_interleaving cleared cleared 0
    exact (left (List.cons_ne_nil _ _) (Source.constant 0.5)).1 rfl
  · obtain ⟨-, noRolls, -⟩ := total_of_interleaving empty empty 0
    exact noRolls rfl (Source.constant 0.5)

end Pipeline

end DiceSampling
