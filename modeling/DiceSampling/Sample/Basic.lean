/-
# Samples

A sample counts how often each total came up.  It is kept as a table from totals
to tallies, ordered by total, with the number of draws beside it.  A sample that
was read from text may state a number of draws that its tallies do not add up to.
-/

import DiceSampling.Source
import Std.Data.ExtTreeMap

namespace DiceSampling

/-- How often each total came up, and how many draws there were. -/
structure Sample where
  tallies : Std.ExtTreeMap Int64 UInt64
  len : UInt64
  deriving DecidableEq

namespace Sample

/-- No draws. -/
def empty : Sample := ⟨∅, 0⟩

instance : Inhabited Sample := ⟨empty⟩

/-- Counts one more draw of a total. -/
def record (sample : Sample) (total : Int64) : Sample :=
  ⟨sample.tallies.alter total fun tally => some (tally.getD 0 + 1), sample.len + 1⟩

/-- Counts several draws of one total. -/
def recordTimes (sample : Sample) (total : Int64) : Nat → Sample
  | 0 => sample
  | n + 1 => (sample.record total).recordTimes total n

/-- Counts draws in order. -/
def recordAll (sample : Sample) (totals : List Int64) : Sample := totals.foldl record sample

/-- Whether there were no draws. -/
def isEmpty (sample : Sample) : Bool := sample.len = 0

/-- How often a total came up. -/
def count (sample : Sample) (total : Int64) : UInt64 := sample.tallies.getD total 0

/-- The totals with their tallies, in ascending order of the totals. -/
def entries (sample : Sample) : List (Int64 × UInt64) := sample.tallies.toList

/-- The totals in ascending order. -/
def totals (sample : Sample) : List Int64 := sample.tallies.keys

/-- The least total that has a tally. -/
def min? (sample : Sample) : Option Int64 := sample.tallies.minKey?

/-- The greatest total that has a tally. -/
def max? (sample : Sample) : Option Int64 := sample.tallies.maxKey?

/-- The share of the draws that gave a total; zero if there were none. -/
def frequency (sample : Sample) (total : Int64) : Float :=
  if sample.isEmpty then 0.0 else (sample.count total).toFloat / sample.len.toFloat

/-- Every total that has a tally with its share, in ascending order of the totals. -/
def frequencies (sample : Sample) : List (Int64 × Float) :=
  sample.totals.map fun total => (total, sample.frequency total)

/-- A draw adds one to the tally of its total and leaves the others. -/
theorem count_record (sample : Sample) (drawn total : Int64) :
    (sample.record drawn).count total =
      if drawn = total then sample.count total + 1 else sample.count total := by
  unfold record count
  rw [Std.ExtTreeMap.getD_alter]
  by_cases h : drawn = total
  · subst h
    simp [Std.ExtTreeMap.getD_eq_getD_getElem?]
  · simp [h]

/-- Several draws of one total are draws in order. -/
theorem recordTimes_eq_recordAll (sample : Sample) (total : Int64) (n : Nat) :
    sample.recordTimes total n = sample.recordAll (List.replicate n total) := by
  induction n generalizing sample with
  | zero => rfl
  | succ n ih => exact ih (sample.record total)

end Sample

namespace Act

variable {σ : Type}

/-- Runs a sampler a number of times and adds what it gives to a sample.  The
first fault ends it. -/
def sampleInto (sampler : Act σ Int64) : Nat → Sample → Act σ Sample
  | 0, sample => pure sample
  | n + 1, sample => do
    let total ← sampler
    sampleInto sampler n (sample.record total)

/-- The sample of a number of runs of a sampler. -/
def sample (sampler : Act σ Int64) (n : UInt64) : Act σ Sample :=
  sampleInto sampler n.toNat .empty

end Act

end DiceSampling
