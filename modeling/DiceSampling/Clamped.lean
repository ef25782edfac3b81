/-
# Arithmetic that stays within 64 bits

Sums and differences of totals stop at the ends of the signed 64-bit range
instead of wrapping around.
-/

namespace DiceSampling.Clamped

/-- The sum of two totals, held within the range. -/
def add (a b : Int64) : Int64 := Int64.ofIntClamp (a.toInt + b.toInt)

/-- The difference of two totals, held within the range. -/
def sub (a b : Int64) : Int64 := Int64.ofIntClamp (a.toInt - b.toInt)

/-- An integer held within the range: the lower end, the integer, or the upper end. -/
theorem toInt_ofIntClamp (x : Int) :
    (Int64.ofIntClamp x).toInt =
      max Int64.minValue.toInt (min Int64.maxValue.toInt x) := by
  unfold Int64.ofIntClamp
  split
  · split
    · rw [Int64.toInt_ofIntLE]; omega
    · have : Int64.minValue.toInt ≤ Int64.maxValue.toInt := by decide
      omega
  · have : Int64.minValue.toInt ≤ Int64.maxValue.toInt := by decide
    omega

/-- The sum is the exact sum brought to the nearest end of the range. -/
theorem toInt_add (a b : Int64) :
    (add a b).toInt =
      max Int64.minValue.toInt (min Int64.maxValue.toInt (a.toInt + b.toInt)) :=
  toInt_ofIntClamp _

/-- The difference is the exact difference brought to the nearest end of the range. -/
theorem toInt_sub (a b : Int64) :
    (sub a b).toInt =
      max Int64.minValue.toInt (min Int64.maxValue.toInt (a.toInt - b.toInt)) :=
  toInt_ofIntClamp _

/-- Adding nothing changes nothing. -/
@[simp] theorem add_zero (a : Int64) : add a 0 = a := by simp [add]

/-- Taking nothing away changes nothing. -/
@[simp] theorem sub_zero (a : Int64) : sub a 0 = a := by simp [sub]

end DiceSampling.Clamped
