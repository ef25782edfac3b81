/-
# Floats as decimal text

Two forms with a fixed number of places after the point: plain, and with one
digit before the point and a power of ten.  Both round the exact value of the
float, and a value halfway goes to the even last digit.
-/

import DiceSampling.Binary64.Basic
import DiceSampling.Text.Decimal

namespace DiceSampling.Binary64

/-- The sign in front of a number. -/
def sign (negative : Bool) : String := if negative then "-" else ""

/-- The texts of what is not finite. -/
def infinityText (negative : Bool) : String := sign negative ++ "inf"

/-- A number of units of the last place, with the point put in. -/
def pointed (places units : Nat) : String :=
  let whole := Decimal.text (units / Nat.pow 10 places)
  if places = 0 then whole
  else whole ++ "." ++ String.ofList (Decimal.paddedDigits places (units % Nat.pow 10 places))

/-- A float with a number of places after the point. -/
def fixedText (places : Nat) (x : Float) : String :=
  match ofFloat x with
  | nan => "NaN"
  | infinite negative => infinityText negative
  | finite negative m q => sign negative ++ pointed places ((ratio m q places).round .toEven)

/-- The digits of `m * 2 ^ q`, one before the point and `places` after it, as one
number, and the power of ten of the first of them. -/
def scientific (places m : Nat) (q : Int) : Nat × Int :=
  if m = 0 then (0, 0)
  else
    let e := (ratio m q 0).magnitude
    let units := (ratio m q (places - e)).round .toEven
    if units = Nat.pow 10 (places + 1) then (Nat.pow 10 places, e + 1) else (units, e)

/-- A float with one digit before the point, a number of places after it, and
the power of ten. -/
def scientificText (places : Nat) (x : Float) : String :=
  match ofFloat x with
  | nan => "NaN"
  | infinite negative => infinityText negative
  | finite negative m q =>
    let (units, e) := scientific places m q
    sign negative ++ pointed places units ++ "e" ++ Decimal.signedText e

end DiceSampling.Binary64
