/-
# Mean and deviation

The mean of a sample and its standard deviation, and the mean and deviation that
the dice of a specification have in theory.
-/

import DiceSampling.Sample.Basic

namespace DiceSampling

/-- The nearest float to a total. -/
def totalToFloat (total : Int64) : Float :=
  let magnitude := total.toInt.natAbs.toUInt64.toFloat
  if total < 0 then -magnitude else magnitude

/-- A mean and the standard deviation around it. -/
structure Summary where
  mean : Float
  stdDev : Float

namespace Summary

/-- The sum of some floats from the left.  The empty sum is negative zero, which
changes nothing that is added to it. -/
def sum (xs : List Float) : Float := xs.foldl (· + ·) (-0.0)

/-- The mean of totals with their tallies, over a stated number of draws. -/
def meanOf (draws : Float) (entries : List (Int64 × UInt64)) : Float :=
  sum (entries.map fun (total, tally) => totalToFloat total * tally.toFloat) / draws

/-- The squares of the distances from a mean, each as often as its tally. -/
def squaresAround (mean : Float) (entries : List (Int64 × UInt64)) : Float :=
  sum <| entries.map fun (total, tally) =>
    let distance := totalToFloat total - mean
    tally.toFloat * (distance * distance)

/-- The summary of totals with their tallies in any order, over a stated number of draws. -/
def ofEntries (draws : Float) (entries : List (Int64 × UInt64)) : Summary :=
  let mean := meanOf draws entries
  ⟨mean, Float.sqrt (squaresAround mean entries / (draws - 1.0))⟩

section Theory

-- floats, or numbers that are exact
variable {R : Type} [Add R] [Sub R] [Mul R] [Div R] [OfScientific R]

/-- The mean of one die. -/
def dieMean (sides : R) : R := (1.0 + sides) / 2.0

/-- The variance of one die. -/
def dieVariance (sides : R) : R :=
  let faces := (sides - 1.0) + 1.0
  (faces * faces - 1.0) / 12.0

/-- The mean of the sum of dice. -/
def diceMean (count sides : R) : R := count * dieMean sides

/-- The variance of the sum of dice. -/
def diceVariance (count sides : R) : R := count * dieVariance sides

end Theory

/-- The summary of the sum of a specification's dice in theory.  There is none
without dice or without faces. -/
def expected (spec : Spec) : Option Summary :=
  if spec.count = 0 ∨ spec.sides = 0 then none
  else
    let count := spec.count.toFloat
    let sides := spec.sides.toFloat
    some ⟨diceMean count sides, Float.sqrt (diceVariance count sides)⟩

end Summary

/-- The mean of the draws and their standard deviation, which is not a number for
a single draw.  There is no summary without draws. -/
def Sample.summary (sample : Sample) : Option Summary :=
  if sample.isEmpty then none else some (.ofEntries sample.len.toFloat sample.entries)

end DiceSampling
