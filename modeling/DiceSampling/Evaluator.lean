/-
# Evaluators

Ready-made ways to give a roll its total.  Some look at other rolls, and some
remember a number from one time to the next.  Their arithmetic wraps around at
64 bits.
-/

import DiceSampling.Roll
import DiceSampling.Table

namespace DiceSampling

variable {σ : Type}

namespace Evaluator

/-- The same total every time. -/
def fixed (total : Int64) : Act σ Int64 := pure total

/-- The totals of a roll times a factor. -/
def scaled (roll : Roll σ) (factor : Int64) : Act σ Int64 := do return (← roll.total) * factor

/-- The highest face of a roll's dice; zero if it has none. -/
def highestFace (roll : Roll σ) : Act σ Int64 := do
  let faces ← roll.faces
  return (faces.foldl max 0).toUInt64.toInt64

/-- The sum of the totals of some rolls, taken in order.  The first fault ends it. -/
def sumOf (rolls : List (Roll σ)) : Act σ Int64 :=
  rolls.foldlM (fun sum roll => do return sum + (← roll.total)) 0

/-- What a cell holds, which goes up by one each time. -/
def counter (cell : Nat) : Act Table Int64 := do
  let value := (← get).cell cell
  modify (Table.setCell cell (value + 1))
  return value

/-- One less than a cell holds, which goes down by one each time; a fault at zero. -/
def countdown (cell : Nat) : Act Table Int64 := do
  let value := (← get).cell cell
  if value ≤ 0 then throw .noRolls
  modify (Table.setCell cell (value - 1))
  return value - 1

end Evaluator

end DiceSampling
