/-
# Pipelines

A pipeline is a list of rolls and modifiers in any order.  Only the order within
each kind matters: the modifiers act on the list of all rolls, and the total of
the pipeline is that of the first roll they leave.
-/

import DiceSampling.Modifier

namespace DiceSampling

variable {σ : Type}

/-- One part of a pipeline. -/
inductive Operand (σ : Type) where
  | roll (roll : Roll σ)
  | modifier (modifier : Modifier σ)

namespace Operand

/-- The roll that an operand is. -/
def roll? : Operand σ → Option (Roll σ)
  | roll r => some r
  | modifier _ => none

/-- The modifier that an operand is. -/
def modifier? : Operand σ → Option (Modifier σ)
  | roll _ => none
  | modifier m => some m

/-- An operand with what can be shown of it. -/
def describe : Operand σ → String
  | roll r => "Roll(" ++ r.describe ++ ")"
  | modifier _ => "Modifier(..)"

/-- A list of operands, in brackets. -/
def describeAll (operands : List (Operand σ)) : String :=
  "[" ++ ", ".intercalate (operands.map describe) ++ "]"

end Operand

/-- Takes the total of the first of some rolls. -/
def Roll.firstTotal : List (Roll σ) → Act σ Int64
  | [] => throw .noRolls
  | roll :: _ => roll.total

/-- Takes the total of a pipeline.  A pipeline without rolls has none, whatever
its modifiers would make of an empty list. -/
def Pipeline.total (spare : Source σ) (operands : List (Operand σ)) : Act σ Int64 :=
  match operands.filterMap Operand.roll? with
  | [] => throw .noRolls
  | rolls => Roll.firstTotal (Modifier.applyAll spare (operands.filterMap Operand.modifier?) rolls)

/-- A pipeline without rolls is a fault, and no state is touched. -/
theorem Pipeline.total_of_no_rolls (spare : Source σ) {operands : List (Operand σ)}
    (h : operands.filterMap Operand.roll? = []) :
    Pipeline.total spare operands = throw .noRolls := by
  simp [Pipeline.total, h]

end DiceSampling
