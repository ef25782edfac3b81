/-
# Modifiers

A modifier turns a list of rolls into a list of rolls.  None of them rolls
anything: the rolls they give are derived, and take the totals they are made of
when their own total is taken.
-/

import DiceSampling.Roll

namespace DiceSampling

variable {σ : Type}

/-- A change by a fixed amount, up or down. -/
inductive Shift where
  | up (delta : Int64)
  | down (delta : Int64)
  deriving DecidableEq, Repr

namespace Shift

/-- A total after the change, held within 64 bits. -/
def apply : Shift → Int64 → Int64
  | up delta, total => Clamped.add total delta
  | down delta, total => Clamped.sub total delta

/-- The roll whose total is the changed total of a roll. -/
def roll (shift : Shift) (roll : Roll σ) : Roll σ :=
  roll.derive do return shift.apply (← roll.total)

/-- A changed roll keeps its dice. -/
@[simp] theorem spec_roll (shift : Shift) (roll : Roll σ) :
    (shift.roll roll).spec = roll.spec := rfl

/-- A changed roll keeps its source. -/
@[simp] theorem source_roll (shift : Shift) (roll : Roll σ) :
    (shift.roll roll).source = roll.source := rfl

end Shift

/-- A rule that folds totals into one, from the left. -/
structure Combine where
  /-- The new value from the value so far and the next total. -/
  aggregate : Int64 → Int64 → Int64
  /-- The value before the first total. -/
  initial : Int64

namespace Combine

/-- The sum of the totals, held within 64 bits. -/
def sum : Combine := ⟨Clamped.add, 0⟩

instance : Inhabited Combine := ⟨sum⟩

/-- The highest of the totals. -/
def highest : Combine := ⟨max, Int64.minValue⟩

/-- The lowest of the totals. -/
def lowest : Combine := ⟨min, Int64.maxValue⟩

/-- Takes the totals of all rolls in order and folds them.  The first fault ends it. -/
def total (combine : Combine) (rolls : List (Roll σ)) : Act σ Int64 :=
  rolls.foldlM (fun soFar roll => do return combine.aggregate soFar (← roll.total)) combine.initial

/-- The one roll that a list of rolls is combined into.  It has no dice of its
own; its source is that of the first roll, or `spare` if there is none. -/
def roll (combine : Combine) (spare : Source σ) (rolls : List (Roll σ)) : Roll σ :=
  (Roll.plain .blank ((rolls.head?.map Roll.source).getD spare)).derive (combine.total rolls)

/-- A rule with what can be shown of its fields. -/
def describe (combine : Combine) : String :=
  "Combine \x7b initial: " ++ Decimal.signedText combine.initial.toInt ++ ", .. \x7d"

end Combine

/-- What can be done to a list of rolls. -/
inductive Modifier (σ : Type) where
  /-- Changes the total of every roll. -/
  | shift (shift : Shift)
  /-- Makes one roll of all. -/
  | combine (combine : Combine)
  /-- Any other function on lists of rolls. -/
  | custom (change : List (Roll σ) → List (Roll σ))

namespace Modifier

/-- Adds an amount to every total. -/
def plus (delta : Int64) : Modifier σ := .shift (.up delta)

/-- Takes an amount from every total. -/
def minus (delta : Int64) : Modifier σ := .shift (.down delta)

/-- Keeps the highest total. -/
def advantage : Modifier σ := .combine .highest

/-- Keeps the lowest total. -/
def disadvantage : Modifier σ := .combine .lowest

/-- The rolls in the opposite order. -/
def reverse : Modifier σ := .custom List.reverse

/-- All rolls but the first. -/
def dropFirst : Modifier σ := .custom List.tail

/-- The rolls followed by themselves. -/
def double : Modifier σ := .custom fun rolls => rolls ++ rolls

/-- No rolls. -/
def clear : Modifier σ := .custom fun _ => []

/-- The first rolls, as many as are asked for. -/
def take (n : Nat) : Modifier σ := .custom (List.take n)

/-- Other rolls in place of those there are. -/
def replace (others : List (Roll σ)) : Modifier σ := .custom fun _ => others

/-- The rolls after a modifier.  `spare` is the source of a combination of no rolls. -/
def apply (spare : Source σ) : Modifier σ → List (Roll σ) → List (Roll σ)
  | shift s, rolls => rolls.map s.roll
  | combine c, rolls => [c.roll spare rolls]
  | custom change, rolls => change rolls

/-- The rolls after several modifiers, each given what the one before it made. -/
def applyAll (spare : Source σ) (modifiers : List (Modifier σ)) (rolls : List (Roll σ)) :
    List (Roll σ) :=
  modifiers.foldl (fun rolls modifier => modifier.apply spare rolls) rolls

/-- Modifiers that come one after the other act on each other's rolls. -/
theorem applyAll_append (spare : Source σ) (first second : List (Modifier σ))
    (rolls : List (Roll σ)) :
    applyAll spare (first ++ second) rolls =
      applyAll spare second (applyAll spare first rolls) :=
  List.foldl_append

end Modifier

end DiceSampling
