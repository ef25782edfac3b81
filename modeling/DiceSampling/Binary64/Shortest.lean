/-
# The shortest decimal of a float

The fewest digits that still denote the float: of the decimals that are nearer
to it than to any other float, those on the coarsest decimal grid are taken, and
of these the nearest to the exact value, halfway cases going to the even digit.
-/

import DiceSampling.Binary64.Text

namespace DiceSampling.Binary64

/-- The decimals that denote the float `m * 2 ^ q`, in units of `2 ^ (q - 2)`:
the ends of the interval, which belong to it exactly if `m` is even.  Below the
least mantissa of a binade the next float is only half as far away. -/
def interval (m : Nat) (q : Int) : Nat × Nat :=
  (if m = 0x10000000000000 ∧ -1074 < q then 4 * m - 1 else 4 * m - 2, 4 * m + 2)

/-- Whether the decimal `d * 10 ^ k` denotes the float `m * 2 ^ q`. -/
def denotes (m : Nat) (q : Int) (d : Nat) (k : Int) : Bool :=
  let (low, high) := interval m q
  -- `d * 10 ^ k` in units of `2 ^ (q - 2)`
  let r : Ratio := ratio d (2 - q) k
  if m % 2 = 0 then low * r.den ≤ r.num && r.num ≤ high * r.den
  else low * r.den < r.num && r.num < high * r.den

/-- The decimal on the grid `10 ^ k` that denotes `m * 2 ^ q` and is nearest to it, if any. -/
def nearestOn (m : Nat) (q k : Int) : Option Nat :=
  let r := ratio m q (-k)
  let nearest := r.round .toEven
  let other := if nearest = r.floor then r.floor + 1 else r.floor
  [nearest, other].find? fun d => denotes m q d k

/-- A decimal without its trailing zeros: `d * 10 ^ k` in its shortest form.  At
most `fuel` zeros are dropped. -/
def dropZeros : Nat → Nat → Int → Nat × Int
  | 0, d, k => (d, k)
  | fuel + 1, d, k => if d % 10 = 0 then dropZeros fuel (d / 10) (k + 1) else (d, k)

/-- The shortest decimal `d * 10 ^ k` of the positive float `m * 2 ^ q`, as `d` and `k`.
Seventeen digits are enough for every float. -/
def shortest (m : Nat) (q : Int) : Nat × Int :=
  let e := (ratio m q 0).magnitude
  let onGrid (digits : Nat) : Option (Nat × Int) :=
    (nearestOn m q (e - digits)).map fun d => dropZeros 17 d (e - digits)
  ((List.range 17).findSome? onGrid).getD (0, 0)

/-- The least power of ten that is written out with zeros after the point. -/
def leastPositional : Int := -5

/-- The most digits before the point that are written out. -/
def mostPositional : Int := 16

/-- A power of ten after its mark: the sign is always written. -/
def exponentText (e : Int) : List Char :=
  'e' :: (if 0 ≤ e then '+' else '-') :: Decimal.digits e.natAbs

/-- A positive decimal `d * 10 ^ k` with a point in it: positional while the number
of digits before the point stays between the bounds, and with a power of ten
otherwise. -/
def layout (d : Nat) (k : Int) : String :=
  let digits := Decimal.digits d
  let point := digits.length + k
  let zeros (n : Int) : List Char := List.replicate n.toNat '0'
  String.ofList <|
    if 0 ≤ k ∧ point ≤ mostPositional then digits ++ zeros k ++ ['.', '0']
    else if 0 < point ∧ point ≤ mostPositional then
      digits.take point.toNat ++ '.' :: digits.drop point.toNat
    else if leastPositional < point ∧ point ≤ 0 then '0' :: '.' :: zeros (-point) ++ digits
    else
      digits.take 1 ++ (if digits.length = 1 then [] else '.' :: digits.drop 1)
        ++ exponentText (point - 1)

/-- The shortest text of a float. -/
def shortestText (x : Float) : String :=
  match ofFloat x with
  | nan => "NaN"
  | infinite negative => infinityText negative
  | finite negative m q =>
    sign negative ++ if m = 0 then "0.0" else layout (shortest m q).1 (shortest m q).2

end DiceSampling.Binary64
