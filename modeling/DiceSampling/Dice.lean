/-
# Rolling dice

The face that a random value stands for, and pools of equal dice over a source.
Each die takes exactly one value, also a die without faces.  A pool of no dice is
a fault, and nothing is taken for it.
-/

import DiceSampling.Clamped
import DiceSampling.Source

namespace DiceSampling

variable {σ : Type}

/-- The integer of `lower..=upper` that a value `r` of `[0, 1)` stands for: the
integer part of `lower + (upper + 1 - lower) * r`.  The conversion clamps what
does not fit in 32 bits, and a value that is not a number gives zero. -/
def draw (lower upper : UInt32) (r : Float) : UInt32 :=
  (lower.toFloat + (upper.toFloat + 1.0 - lower.toFloat) * r).toUInt32

namespace Dice

/-- Rolls one die.  A die without faces always shows zero. -/
def face (source : Source σ) (sides : UInt32) : StateM σ UInt32 := do
  let r ← source.next
  return if sides = 0 then 0 else draw 1 sides r

/-- Rolls every die of a specification and keeps the faces in order. -/
def faces (source : Source σ) (spec : Spec) : StateM σ (List UInt32) :=
  (List.replicate spec.count.toNat ()).mapM fun _ => face source spec.sides

/-- A computation that is run a number of times gives as many results. -/
theorem length_mapM_replicate {α : Type} (act : StateM σ α) (n : Nat) (s : σ) :
    (((List.replicate n ()).mapM fun _ => act) s).1.length = n := by
  induction n generalizing s with
  | zero => rfl
  | succ n ih =>
    rw [List.replicate_succ, List.mapM_cons]
    exact congrArg (· + 1) (ih (act s).2)

/-- Every die shows one face. -/
theorem length_faces (source : Source σ) (spec : Spec) (s : σ) :
    (faces source spec s).1.length = spec.count.toNat :=
  length_mapM_replicate _ _ s

/-- A total with one more face in it. -/
def addFace (total : Int64) (face : UInt32) : Int64 :=
  Clamped.add total face.toUInt64.toInt64

/-- Rolls a number of dice and adds their faces to a total. -/
def addFaces (source : Source σ) (sides : UInt32) : Nat → Int64 → StateM σ Int64
  | 0, total => pure total
  | more + 1, total => do
    let shown ← face source sides
    addFaces source sides more (addFace total shown)

/-- The sum of the faces of a specification's dice. -/
def total (source : Source σ) (spec : Spec) : Act σ Int64 :=
  if spec.count = 0 then throw (.nonPositiveCount spec.count)
  else ExceptT.lift (addFaces source spec.sides spec.count.toNat 0)

/-- A pool of no dice is a fault, and the source is left alone. -/
theorem total_of_count_eq_zero (source : Source σ) {spec : Spec} (h : spec.count = 0) :
    total source spec = throw (.nonPositiveCount 0) := by
  simp [total, h]

end Dice

/-- The two ways to name dice: by notation, or by a specification. -/
inductive Input where
  | text (written : String)
  | spec (given : Spec)
  deriving DecidableEq, Repr

namespace Input

/-- The specification that is named. -/
def read : Input → Except Fault Spec
  | .text written => (Notation.read written).mapError .unreadable
  | .spec given => .ok given

end Input

namespace Dice

/-- The total of the dice that a text names.  Nothing is taken if it names none. -/
def totalOfText (source : Source σ) (text : String) : Act σ Int64 := do
  let spec ← liftExcept ((Notation.read text).mapError Fault.unreadable)
  total source spec

/-- The total of the dice that an input names. -/
def totalOfInput (source : Source σ) (input : Input) : Act σ Int64 := do
  let spec ← liftExcept input.read
  total source spec

end Dice

end DiceSampling
