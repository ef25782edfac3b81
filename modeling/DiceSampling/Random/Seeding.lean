/-
# Keys from seeds

A seed of 64 bits starts a linear congruential generator, whose permuted output
gives the eight words of a key.
-/

import DiceSampling.Random.ChaCha

namespace DiceSampling.Seeding

open ChaCha

/-- The next state of the congruential generator. -/
def advance (state : UInt64) : UInt64 := state * 6364136223846793005 + 11634580027462260723

/-- The word turned right by a number of bits below 32. -/
def turnRight (w : UInt32) (bits : UInt32) : UInt32 :=
  (w >>> bits) ||| (w <<< ((32 - bits) % 32))

/-- The word that a state shows: some of its high bits, turned by the highest. -/
def output (state : UInt64) : UInt32 :=
  turnRight (((state >>> 18) ^^^ state) >>> 27).toUInt32 (state >>> 59).toUInt32

/-- A row of the next four words, and the state after them. -/
def row (state : UInt64) : Row × UInt64 :=
  let s1 := advance state
  let s2 := advance s1
  let s3 := advance s2
  let s4 := advance s3
  (⟨output s1, output s2, output s3, output s4⟩, s4)

/-- The key that a seed stands for. -/
def key (seed : UInt64) : Key :=
  let (low, state) := row seed
  let (high, _) := row state
  ⟨low, high⟩

end DiceSampling.Seeding
