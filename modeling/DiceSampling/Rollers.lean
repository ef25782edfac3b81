/-
# Runs of steps over generators

A list of generators that grows as they are forked, and the steps that can be
taken with any one of them.  A step touches only the generator it names; a fork
also adds one at the end.
-/

import DiceSampling.Dice
import DiceSampling.Random.Supply

namespace DiceSampling.Rollers

/-- One step with the generator at a place. -/
inductive Step where
  /-- Takes a value. -/
  | value (i : Nat)
  /-- Takes a number of values and shows none. -/
  | skip (i n : Nat)
  /-- Adds a fork of the generator. -/
  | fork (i : Nat)
  /-- Rolls a die. -/
  | face (i : Nat) (sides : UInt32)
  /-- Rolls the dice of a specification. -/
  | total (i : Nat) (spec : Spec)
  /-- Rolls the dice that an input names. -/
  | input (i : Nat) (input : Input)
  deriving DecidableEq, Repr

/-- What a step shows. -/
inductive Answer where
  | value (r : Float)
  | skipped (n : Nat)
  | forked (place : Nat)
  | face (face : UInt32)
  | total (total : Except Fault Int64)
  /-- There is no generator at the place. -/
  | absent

/-- The place of the generator that a step names. -/
def Step.place : Step → Nat
  | value i | skip i _ | fork i | face i _ | total i _ | input i _ => i

/-- A generator after a number of values. -/
def skip : Nat → Generator → Generator
  | 0, g => g
  | n + 1, g => skip n g.value.2

/-- What a step shows and leaves of the generator it names, and the generator it
adds.  `size` is the place of an added one. -/
def act (size : Nat) (g : Generator) : Step → Answer × Generator × Option Generator
  | .value _ =>
    let (r, g) := g.value
    (.value r, g, none)
  | .skip _ n => (.skipped n, skip n g, none)
  | .fork _ =>
    let (child, g) := g.fork
    (.forked size, g, some child)
  | .face _ sides =>
    let (shown, g) := Dice.face Generator.source sides g
    (.face shown, g, none)
  | .total _ spec =>
    let (total, g) := Dice.total Generator.source spec g
    (.total total, g, none)
  | .input _ named =>
    let (total, g) := Dice.totalOfInput Generator.source named g
    (.total total, g, none)

/-- What one step shows, and the generators after it. -/
def step (s : Step) (rollers : List Generator) : Answer × List Generator :=
  match rollers[s.place]? with
  | none => (.absent, rollers)
  | some g =>
    let (answer, g, added) := act rollers.length g s
    (answer, rollers.set s.place g ++ added.toList)

/-- What the steps of a run show, and the generators after it. -/
def run : List Step → List Generator → List Answer × List Generator
  | [], rollers => ([], rollers)
  | s :: rest, rollers =>
    let (answer, rollers) := step s rollers
    let (answers, rollers) := run rest rollers
    (answer :: answers, rollers)

end DiceSampling.Rollers
