/-
# Aggregates

Ready-made rules for the fold of a combination.  Each takes the value so far and
the next total, and its arithmetic wraps around at 64 bits.
-/

namespace DiceSampling

namespace Aggregate

/-- The sum. -/
def add (soFar next : Int64) : Int64 := soFar + next

/-- The product. -/
def mul (soFar next : Int64) : Int64 := soFar * next

/-- The value so far less the next. -/
def sub (soFar next : Int64) : Int64 := soFar - next

/-- The value so far, whatever comes next. -/
def first (soFar _next : Int64) : Int64 := soFar

/-- The next value, whatever came before. -/
def last (_soFar next : Int64) : Int64 := next

/-- The values as the coefficients of a polynomial at 31. -/
def poly (soFar next : Int64) : Int64 := soFar * 31 + next

end Aggregate

end DiceSampling
