/-
# Rolls

A roll joins a specification and a source.  Its total is the sum of its dice,
unless it is derived: then an evaluator answers in place of the dice.  The faces
of a roll always come from its own dice, also when it is derived.
-/

import DiceSampling.Dice

namespace DiceSampling

variable {σ : Type}

/-- Something with a total that can be taken again and again. -/
structure Roll (σ : Type) where
  spec : Spec
  source : Source σ
  /-- What gives the total in place of the dice. -/
  evaluator : Option (Act σ Int64)

namespace Roll

/-- The roll whose total is the sum of its dice. -/
def plain (spec : Spec) (source : Source σ) : Roll σ := ⟨spec, source, none⟩

/-- The roll with the same dice and source whose total an evaluator gives. -/
def derive (roll : Roll σ) (evaluator : Act σ Int64) : Roll σ :=
  ⟨roll.spec, roll.source, some evaluator⟩

/-- Whether an evaluator gives the total. -/
def isDerived (roll : Roll σ) : Bool := roll.evaluator.isSome

/-- Takes the total of a roll. -/
def total (roll : Roll σ) : Act σ Int64 :=
  match roll.evaluator with
  | some evaluator => evaluator
  | none => Dice.total roll.source roll.spec

/-- Rolls the dice of a roll and gives their faces. -/
def faces (roll : Roll σ) : StateM σ (List UInt32) := Dice.faces roll.source roll.spec

/-- The total of a plain roll is that of its dice. -/
@[simp] theorem total_plain (spec : Spec) (source : Source σ) :
    (plain spec source).total = Dice.total source spec := rfl

/-- The total of a derived roll is what its evaluator gives. -/
@[simp] theorem total_derive (roll : Roll σ) (evaluator : Act σ Int64) :
    (roll.derive evaluator).total = evaluator := rfl

/-- A derived roll has the faces of the roll it is derived from. -/
@[simp] theorem faces_derive (roll : Roll σ) (evaluator : Act σ Int64) :
    (roll.derive evaluator).faces = roll.faces := rfl

/-- A roll with what can be shown of its fields. -/
def describe (roll : Roll σ) : String :=
  "Roll \x7b spec: " ++ roll.spec.describe
    ++ ", derived: " ++ (if roll.isDerived then "true" else "false") ++ ", .. \x7d"

/-- The parts of a roll that may be left out. -/
structure Parts (σ : Type) where
  /-- The dice; without it the roll has none. -/
  input : Input := .spec .blank
  /-- The source; without it the spare one is used. -/
  source : Option (Source σ) := none
  evaluator : Option (Act σ Int64) := none

/-- Builds a roll from its parts.  `spare` is the source of a roll that names none. -/
def build (spare : Source σ) (parts : Parts σ) : Except Fault (Roll σ) := do
  let spec ← parts.input.read
  return ⟨spec, parts.source.getD spare, parts.evaluator⟩

end Roll

end DiceSampling
