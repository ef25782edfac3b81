/-
# Pipelines without derived rolls

The modifiers of a pipeline nest rolls in rolls and take nothing until the end.  The
reference here nests nothing: it takes the totals that are needed, once and in order,
and works on numbers from there.  For shifts and combinations the two agree on the
result, on the fault and on the state.
-/

import DiceSampling.Pipeline
import DiceSampling.Proofs.Outcome

namespace DiceSampling

variable {σ : Type}

/-- The modifiers that work on totals alone. -/
inductive Stage where
  | shift (shift : Shift)
  | combine (combine : Combine)

namespace Stage

/-- The modifier that a stage stands for. -/
def modifier : Stage → Modifier σ
  | shift s => .shift s
  | combine c => .combine c

/-- What a stage makes of a single total. -/
def act : Stage → Int64 → Int64
  | shift s, total => s.apply total
  | combine c, total => c.aggregate c.initial total

/-- What the shifts before the first combination make of a total. -/
def leading : List Stage → Int64 → Int64
  | shift s :: stages, total => leading stages (s.apply total)
  | _, total => total

/-- The first combination with the stages after it. -/
def firstCombine : List Stage → Option (Combine × List Stage)
  | [] => none
  | shift _ :: stages => firstCombine stages
  | combine c :: stages => some (c, stages)

/-- What several stages make of a single total, one after the other. -/
def actAll (stages : List Stage) (total : Int64) : Int64 :=
  stages.foldl (fun total stage => stage.act total) total

/-- A combination in front comes before every shift. -/
theorem leading_cons_combine (combine : Combine) (stages : List Stage) :
    leading (.combine combine :: stages) = id := rfl

theorem actAll_of_firstCombine_eq_none {stages : List Stage} (h : firstCombine stages = none)
    (total : Int64) : actAll stages total = leading stages total := by
  induction stages generalizing total with
  | nil => rfl
  | cons stage stages ih =>
      cases stage with
      | shift s => exact ih h (s.apply total)
      | combine c => cases h

theorem actAll_of_firstCombine_eq_some {stages later : List Stage} {combine : Combine}
    (h : firstCombine stages = some (combine, later)) (total : Int64) :
    actAll stages total =
      actAll later (combine.aggregate combine.initial (leading stages total)) := by
  induction stages generalizing total with
  | nil => cases h
  | cons stage stages ih =>
      cases stage with
      | shift s => exact ih h (s.apply total)
      | combine c =>
          cases h
          rfl

end Stage

namespace Eager

/-- Takes the total of each roll, once and in order.  The first fault ends it. -/
def totals : List (Roll σ) → σ → Outcome σ (List Int64)
  | [], s => (.ok [], s)
  | roll :: rolls, s =>
    Outcome.andThen (roll.total s) fun total s => Outcome.map (total :: ·) (totals rolls s)

/-- The total of a pipeline of at least one roll.  Without a combination only the first
roll is looked at.  With one, each roll is, the combination folds the shifted totals,
and the stages that are left act on its value. -/
def total (first : Roll σ) (rest : List (Roll σ)) (stages : List Stage) (s : σ) :
    Outcome σ Int64 :=
  match Stage.firstCombine stages with
  | none => Outcome.map (Stage.leading stages) (first.total s)
  | some (combine, later) =>
    Outcome.map (fun totals =>
      Stage.actAll later
        ((totals.map (Stage.leading stages)).foldl combine.aggregate combine.initial))
      (totals (first :: rest) s)

end Eager

theorem Shift.total_roll (shift : Shift) (roll : Roll σ) (s : σ) :
    (shift.roll roll).total s = Outcome.map shift.apply (roll.total s) := by
  unfold Shift.roll
  rw [Roll.total_derive, bind_pure_comp, Act.map_apply]

namespace Eager

/-- Shifting every roll shifts every total. -/
theorem totals_map_shift (shift : Shift) (rolls : List (Roll σ)) (s : σ) :
    totals (rolls.map shift.roll) s = Outcome.map (List.map shift.apply) (totals rolls s) := by
  induction rolls generalizing s with
  | nil => rfl
  | cons roll rolls ih =>
      rw [List.map_cons, totals, totals, Shift.total_roll, Outcome.map_andThen,
        Outcome.andThen_map]
      congr 1
      funext total s
      rw [ih, Outcome.map_map, Outcome.map_map]
      rfl

/-- A combination takes the totals of its rolls and folds them. -/
theorem total_combine (combine : Combine) (rolls : List (Roll σ)) (s : σ) :
    combine.total rolls s =
      Outcome.map (List.foldl combine.aggregate combine.initial) (totals rolls s) := by
  unfold Combine.total
  generalize combine.initial = value
  induction rolls generalizing value s with
  | nil => rfl
  | cons roll rolls ih =>
      rw [List.foldlM_cons, bind_pure_comp, Act.bind_apply, Act.map_apply, Outcome.map_andThen,
        totals, Outcome.andThen_map]
      congr 1
      funext total s
      rw [ih, Outcome.map_map]
      rfl

theorem totals_singleton (roll : Roll σ) (s : σ) :
    totals [roll] s = Outcome.map (fun total => [total]) (roll.total s) := by
  unfold totals
  rcases roll.total s with ⟨result, s⟩
  cases result <;> rfl

/-- The stages act on a single roll one after the other. -/
theorem total_single (roll : Roll σ) (stages : List Stage) (s : σ) :
    total roll [] stages s = Outcome.map (Stage.actAll stages) (roll.total s) := by
  unfold total
  rcases h : Stage.firstCombine stages with _ | ⟨combine, later⟩
  · dsimp only
    congr 1
    funext total
    rw [Stage.actAll_of_firstCombine_eq_none h]
  · dsimp only
    rw [totals_singleton, Outcome.map_map]
    congr 1
    funext total
    rw [Stage.actAll_of_firstCombine_eq_some h]
    rfl

/-- A shift in front shifts every roll. -/
theorem total_cons_shift (first : Roll σ) (rest : List (Roll σ)) (shift : Shift)
    (stages : List Stage) (s : σ) :
    total first rest (.shift shift :: stages) s =
      total (shift.roll first) (rest.map shift.roll) stages s := by
  unfold total
  rw [Stage.firstCombine]
  rcases Stage.firstCombine stages with _ | ⟨combine, later⟩
  · dsimp only
    rw [Shift.total_roll, Outcome.map_map]
    rfl
  · dsimp only
    rw [← List.map_cons, totals_map_shift, Outcome.map_map]
    congr 1
    funext totals
    rw [Function.comp_apply, List.map_map]
    rfl

/-- A combination in front leaves one roll, which it gives the total of. -/
theorem total_cons_combine (spare : Source σ) (first : Roll σ) (rest : List (Roll σ))
    (combine : Combine) (stages : List Stage) (s : σ) :
    total first rest (.combine combine :: stages) s =
      total (combine.roll spare (first :: rest)) [] stages s := by
  rw [total_single, Combine.roll, Roll.total_derive, total_combine, Outcome.map_map]
  unfold total
  rw [Stage.firstCombine]
  dsimp only
  congr 1
  funext totals
  rw [Stage.leading_cons_combine, List.map_id]
  rfl

/-- Each stage either shifts every roll or leaves one. -/
theorem firstTotal_applyAll (spare : Source σ) (first : Roll σ) (rest : List (Roll σ))
    (stages : List Stage) (s : σ) :
    Roll.firstTotal (Modifier.applyAll spare (stages.map Stage.modifier) (first :: rest)) s =
      total first rest stages s := by
  induction stages generalizing first rest with
  | nil => exact (Outcome.map_id _).symm
  | cons stage stages ih =>
      cases stage with
      | shift shift =>
          rw [total_cons_shift]
          exact ih (shift.roll first) (rest.map shift.roll)
      | combine combine =>
          rw [total_cons_combine spare]
          exact ih (combine.roll spare (first :: rest)) []

end Eager

namespace Pipeline

/-- The operands that name some rolls and then some modifiers. -/
def operands (rolls : List (Roll σ)) (modifiers : List (Modifier σ)) : List (Operand σ) :=
  rolls.map Operand.roll ++ modifiers.map Operand.modifier

@[simp] theorem filterMap_roll?_operands (rolls : List (Roll σ)) (modifiers : List (Modifier σ)) :
    (operands rolls modifiers).filterMap Operand.roll? = rolls := by
  have noRoll : Operand.roll? ∘ Operand.modifier = fun _ : Modifier σ => none := rfl
  have itsRoll : Operand.roll? ∘ Operand.roll = fun roll : Roll σ => some roll := rfl
  rw [operands, List.filterMap_append, List.filterMap_map, List.filterMap_map, noRoll,
    itsRoll, List.filterMap_some]
  simp

@[simp] theorem filterMap_modifier?_operands (rolls : List (Roll σ))
    (modifiers : List (Modifier σ)) :
    (operands rolls modifiers).filterMap Operand.modifier? = modifiers := by
  have noModifier : Operand.modifier? ∘ Operand.roll = fun _ : Roll σ => none := rfl
  have itsModifier : Operand.modifier? ∘ Operand.modifier =
      fun modifier : Modifier σ => some modifier := rfl
  rw [operands, List.filterMap_append, List.filterMap_map, List.filterMap_map, noModifier,
    itsModifier, List.filterMap_some]
  simp

theorem total_operands (spare : Source σ) (first : Roll σ) (rest : List (Roll σ))
    (stages : List Stage) (s : σ) :
    Pipeline.total spare (operands (first :: rest) (stages.map Stage.modifier)) s =
      Eager.total first rest stages s := by
  rw [Pipeline.total, filterMap_roll?_operands, filterMap_modifier?_operands]
  exact Eager.firstTotal_applyAll spare first rest stages s

end Pipeline

/-- A pipeline with a roll whose modifiers are shifts and combinations ends in every state as
the reference does: with the same total or the same fault, and in the same state. -/
theorem Pipeline.total_eq_eager (spare : Source σ) {operands : List (Operand σ)}
    {first : Roll σ} {rest : List (Roll σ)} {stages : List Stage}
    (rolls : operands.filterMap Operand.roll? = first :: rest)
    (modifiers : operands.filterMap Operand.modifier? = stages.map Stage.modifier) (s : σ) :
    Pipeline.total spare operands s = Eager.total first rest stages s := by
  rw [Pipeline.total, rolls, modifiers]
  exact Eager.firstTotal_applyAll spare first rest stages s

/-- The roll that always has the same total and counts in the state how often it is taken. -/
def Roll.counted (total : Int64) : Roll ℕ :=
  (Roll.plain .blank (Source.constant 0.5)).derive fun taken => (.ok total, taken + 1)

/-- The higher of two totals, raised before and lowered after: each total is taken once. -/
theorem Pipeline.total_of_two_counted_rolls :
    Pipeline.total (Source.constant 0.5) [.roll (.counted 3), .modifier (.plus 1),
      .modifier .advantage, .roll (.counted 7), .modifier (.minus 2)] 0 = (.ok 6, 2) := by
  have eager := @Pipeline.total_eq_eager ℕ (Source.constant 0.5) [.roll (.counted 3),
    .modifier (.plus 1), .modifier .advantage, .roll (.counted 7), .modifier (.minus 2)]
    (.counted 3) [.counted 7] [.shift (.up 1), .combine .highest, .shift (.down 2)] rfl rfl 0
  rw [eager]
  rfl

end DiceSampling
