/-
# Options of a sampling run

What a run is asked to do, the pipeline its options make of a roll, and the
theory they leave valid.
-/

import DiceSampling.Pipeline
import DiceSampling.Random.Generator
import DiceSampling.Sample.Summary

namespace DiceSampling

/-- Which of two totals a roll keeps. -/
inductive Edge where
  /-- There is only one total. -/
  | none
  /-- The higher of two. -/
  | advantage
  /-- The lower of two. -/
  | disadvantage
  deriving DecidableEq, Repr

/-- The modifier that keeps one of two totals. -/
def Edge.modifier? {σ : Type} : Edge → Option (Modifier σ)
  | none => Option.none
  | advantage => some Modifier.advantage
  | disadvantage => some Modifier.disadvantage

/-- What a run is asked to do. -/
structure Options where
  /-- The dice to sample, each as notation. -/
  notations : List String
  /-- How often each is rolled. -/
  samples : UInt64 := 100000
  /-- What the main generator is made from; without it the run is not repeatable. -/
  seed : Option UInt64 := none
  /-- What is added to every total. -/
  bonus : Int64 := 0
  edge : Edge := .none
  /-- The length of the longest bar. -/
  width : UInt64 := 50
  /-- The file for the report. -/
  output : Option String := none
  deriving DecidableEq, Repr

namespace Options

variable {σ : Type}

/-- The pipeline of a roll: a second roll of the same dice if one of two totals is
kept, then the bonus, unless it is zero. -/
def operands (options : Options) (roll : Roll σ) : List (Operand σ) :=
  let edge : List (Operand σ) :=
    match options.edge.modifier? with
    | none => []
    | some modifier => [.roll roll, .modifier modifier]
  let bonus : List (Operand σ) :=
    if options.bonus = 0 then [] else [.modifier (.plus options.bonus)]
  .roll roll :: edge ++ bonus

/-- Takes one total of a roll under the options. -/
def total (options : Options) (roll : Roll σ) : Act σ Int64 :=
  Pipeline.total roll.source (options.operands roll)

/-- The mean and deviation in theory, which hold for the bare dice only. -/
def expected (options : Options) (spec : Spec) : Option Summary :=
  if options.edge = .none ∧ options.bonus = 0 then Summary.expected spec else none

end Options

end DiceSampling
