/-
# Random generators

A generator is a key and the number of words taken from its stream.  Values in
`[0, 1)` take two words each; a fork takes eight, and they are the key of a new
generator that stands at the start of its own stream.
-/

import DiceSampling.Random.Seeding

namespace DiceSampling

open ChaCha

/-- A place in the stream of a key, with the block of words around it. -/
structure Generator where
  key : Key
  /-- How many words have been taken. -/
  taken : Nat
  block : Block
  block_eq : block = keyBlock key (taken / 16)
  deriving DecidableEq

namespace Generator

/-- The generator that has taken `taken` words of the stream of `key`. -/
def after (key : Key) (taken : Nat) : Generator := ⟨key, taken, keyBlock key (taken / 16), rfl⟩

/-- A generator at the start of the stream of a key. -/
def ofKey (key : Key) : Generator := after key 0

/-- The generator of a seed. -/
def ofSeed (seed : UInt64) : Generator := ofKey (Seeding.key seed)

/-- The next word. -/
def word (g : Generator) : UInt32 × Generator :=
  (g.block.word (g.taken % 16),
    if h : g.taken % 16 = 15 then after g.key (g.taken + 1)
    else ⟨g.key, g.taken + 1, g.block, by
      rw [g.block_eq, show (g.taken + 1) / 16 = g.taken / 16 by omega]⟩)

/-- The next four words. -/
def row (g : Generator) : Row × Generator :=
  let (a, g) := g.word
  let (b, g) := g.word
  let (c, g) := g.word
  let (d, g) := g.word
  (⟨a, b, c, d⟩, g)

/-- The distance between neighbouring values, `2 ^ -53`. -/
def unit : Float := Float.ofBits 0x3ca0000000000000

/-- The value of `[0, 1)` that two words stand for: their 53 highest bits. -/
def valueOfWords (low high : UInt32) : Float :=
  (((high.toUInt64 <<< 32) ||| low.toUInt64) >>> 11).toFloat * unit

/-- The next value of `[0, 1)`. -/
def value (g : Generator) : Float × Generator :=
  let (low, g) := g.word
  let (high, g) := g.word
  (valueOfWords low high, g)

/-- A new generator keyed by the next eight words, and this one after them. -/
def fork (g : Generator) : Generator × Generator :=
  let (low, g) := g.row
  let (high, g) := g.row
  (ofKey ⟨low, high⟩, g)

/-- Two generators with the same key at the same place are equal. -/
theorem ext_of_place {g h : Generator} (key : g.key = h.key) (taken : g.taken = h.taken) :
    g = h := by
  obtain ⟨k, t, b, hb⟩ := g
  obtain ⟨k', t', b', hb'⟩ := h
  change k = k' at key
  change t = t' at taken
  subst key taken hb hb'
  rfl

@[simp] theorem key_after (key : Key) (taken : Nat) : (after key taken).key = key := rfl

@[simp] theorem taken_after (key : Key) (taken : Nat) : (after key taken).taken = taken := rfl

/-- Taking a word moves the place by one. -/
theorem word_snd (g : Generator) : g.word.2 = after g.key (g.taken + 1) := by
  apply ext_of_place <;> simp only [word] <;> split <;> rfl

/-- The word taken is the one at the place in the stream. -/
theorem word_fst (g : Generator) : g.word.1 = keyWord g.key g.taken := by
  simp [word, keyWord, g.block_eq]

/-- Taking a value moves the place by two. -/
theorem value_snd (g : Generator) : g.value.2 = after g.key (g.taken + 2) := by
  simp [value, word_snd, after]

/-- Forking moves the place by eight. -/
theorem fork_snd (g : Generator) : g.fork.2 = after g.key (g.taken + 8) := by
  simp [fork, row, word_snd, after]

end Generator

end DiceSampling
