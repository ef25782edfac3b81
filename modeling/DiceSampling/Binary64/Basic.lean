/-
# What a float denotes

A float is not a number, infinite, or an integer times a power of two.  Exact
arithmetic on floats starts from this reading of their bits.
-/

namespace DiceSampling

/-- The meaning of a float. -/
inductive Binary64 where
  | nan
  | infinite (negative : Bool)
  /-- The number `mantissa * 2 ^ exponent`, or its opposite. -/
  | finite (negative : Bool) (mantissa : Nat) (exponent : Int)
  deriving DecidableEq, Repr

namespace Binary64

/-- The meaning of a float, from its sign, its eleven bits of exponent and the
fifty-two bits of its fraction. -/
def ofFloat (x : Float) : Binary64 :=
  let bits := x.toBits
  let negative := bits >>> 63 != 0
  let exponent := ((bits >>> 52) &&& 0x7ff).toNat
  let fraction := (bits &&& 0xfffffffffffff).toNat
  if exponent = 0x7ff then
    if fraction = 0 then infinite negative else nan
  else if exponent = 0 then finite negative fraction (-1074)
  else finite negative (0x10000000000000 + fraction) (exponent - 1075)

/-- Whether a float denotes a number. -/
def isNumber (x : Float) : Bool :=
  match ofFloat x with
  | finite .. => true
  | _ => false

/-- A fraction of natural numbers. -/
structure Ratio where
  num : Nat
  den : Nat
  deriving DecidableEq, Repr

/-- The fraction `m * 2 ^ q * 10 ^ p`. -/
def ratio (m : Nat) (q p : Int) : Ratio :=
  ⟨m * Nat.pow 2 q.toNat * Nat.pow 10 p.toNat, Nat.pow 2 (-q).toNat * Nat.pow 10 (-p).toNat⟩

/-- The integer part of a fraction. -/
def Ratio.floor (r : Ratio) : Nat := r.num / r.den

/-- Where a fraction goes that lies halfway between two integers. -/
inductive Tie where
  /-- To the even one. -/
  | toEven
  /-- To the greater one. -/
  | up
  deriving DecidableEq, Repr

/-- The integer nearest to a fraction. -/
def Ratio.round (tie : Tie) (r : Ratio) : Nat :=
  let whole := r.num / r.den
  let twice := 2 * (r.num % r.den)
  if twice < r.den then whole
  else if r.den < twice then whole + 1
  else
    match tie with
    | .toEven => whole + whole % 2
    | .up => whole + 1

/-- The power of ten at or below a positive fraction: with the result `e`, the
fraction is at least `10 ^ e` and less than `10 ^ (e + 1)`. -/
def Ratio.magnitude (r : Ratio) : Int :=
  if r.den ≤ r.num then (Nat.toDigits 10 (r.num / r.den)).length - 1
  else -((Nat.toDigits 10 ((r.den - 1) / r.num)).length : Int)

/-- A float that is not negative as the nearest natural number, halves going up;
what is negative or not a number gives zero, and infinity gives `limit`. -/
def roundToNat (limit : Nat) (x : Float) : Nat :=
  match ofFloat x with
  | finite false m q => min limit ((ratio m q 0).round .up)
  | infinite false => limit
  | _ => 0

end Binary64

end DiceSampling
