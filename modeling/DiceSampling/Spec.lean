/-
# Dice specifications

A number of equal dice and the number of faces on each.  A specification is
plain data: either number may be zero, and what that means is for the operations
that roll it to say.
-/

import DiceSampling.Text.Decimal

namespace DiceSampling

/-- `count` dice of `sides` faces each. -/
structure Spec where
  count : UInt32
  sides : UInt32
  deriving DecidableEq, Repr

namespace Spec

/-- No dice, and none with faces. -/
def blank : Spec := ⟨0, 0⟩

instance : Inhabited Spec := ⟨blank⟩

/-- The canonical notation of a specification, such as `2d6`. -/
def text (spec : Spec) : String :=
  Decimal.text spec.count.toNat ++ "d" ++ Decimal.text spec.sides.toNat

/-- A specification with its fields named. -/
def describe (spec : Spec) : String :=
  "DiceSpec \x7b count: " ++ Decimal.text spec.count.toNat
    ++ ", sides: " ++ Decimal.text spec.sides.toNat ++ " \x7d"

end Spec

end DiceSampling
