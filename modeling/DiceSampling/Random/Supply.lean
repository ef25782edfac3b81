/-
# Generators as sources

A single generator as the state of a source, and supplies of values that also
count what has been taken from them.
-/

import DiceSampling.Random.Generator
import DiceSampling.Source

namespace DiceSampling

namespace Generator

/-- The source whose whole state is one generator. -/
def source : Source Generator := ⟨none, modifyGet Generator.value⟩

end Generator

/-- Where the values of a feed come from. -/
inductive Supply where
  /-- A value for every place in an endless sequence. -/
  | stream (value : Nat → Float)
  /-- The values of a generator from where it stands. -/
  | generator (generator : Generator)

namespace Supply

/-- The supply that repeats some values for ever. -/
def cycle (values : Array Float) : Supply := .stream fun n => values.getD (n % values.size) 0.0

/-- The supply of a generator that is the `n`-th fork of another; `0` is the generator itself. -/
def ofFork (g : Generator) : Nat → Supply
  | 0 => .generator g
  | 1 => .generator g.fork.1
  | n + 2 => ofFork g.fork.2 (n + 1)

end Supply

/-- A supply of values together with the number of values taken from it. -/
structure Feed where
  supply : Supply
  taken : Nat

namespace Feed

/-- A feed from which nothing has been taken. -/
def ofSupply (supply : Supply) : Feed := ⟨supply, 0⟩

/-- Takes the next value. -/
def next (feed : Feed) : Float × Feed :=
  match feed.supply with
  | .stream value => (value feed.taken, ⟨feed.supply, feed.taken + 1⟩)
  | .generator g =>
    let (r, g) := g.value
    (r, ⟨.generator g, feed.taken + 1⟩)

/-- Taking a value is counted. -/
@[simp] theorem taken_next (feed : Feed) : feed.next.2.taken = feed.taken + 1 := by
  unfold next
  split <;> rfl

end Feed

end DiceSampling
