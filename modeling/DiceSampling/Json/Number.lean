/-
# Numbers in JSON text

Which words are numbers, and which numbers are whole: a whole number is written
with digits only, so `1.0` and `1e2` are numbers that are not whole, and so is
`-0`.
-/

import DiceSampling.Text.Decimal

namespace DiceSampling.Json

/-- Whether digits are a whole number without a superfluous zero. -/
def isWhole : List Char → Bool
  | [] => false
  | ['0'] => true
  | c :: rest => c != '0' && (c :: rest).all Char.isDigit

/-- Whether characters are one digit or more. -/
def isDigits (s : List Char) : Bool := !s.isEmpty && s.all Char.isDigit

/-- Whether what follows the digits of a number is an exponent, or nothing. -/
def isExponent : List Char → Bool
  | [] => true
  | e :: rest =>
    (e == 'e' || e == 'E') &&
      match rest with
      | '+' :: digits => isDigits digits
      | '-' :: digits => isDigits digits
      | digits => isDigits digits

/-- Whether what follows the whole part of a number is a fraction, an exponent,
both or nothing. -/
def isFraction : List Char → Bool
  | '.' :: rest =>
    isDigits (rest.takeWhile Char.isDigit) && isExponent (rest.dropWhile Char.isDigit)
  | rest => isExponent rest

/-- Whether characters are a number without a sign. -/
def isUnsigned (s : List Char) : Bool :=
  isWhole (s.takeWhile Char.isDigit) && isFraction (s.dropWhile Char.isDigit)

/-- Whether a word is a number. -/
def isNumber : List Char → Bool
  | '-' :: rest => isUnsigned rest
  | s => isUnsigned s

/-- The integer that a word is written for digit by digit. -/
def integer? : List Char → Option Int
  | '-' :: digits =>
    if isWhole digits && digits != ['0'] then some (-(Decimal.value digits : Int)) else none
  | digits => if isWhole digits then some (Decimal.value digits) else none

/-- A word as a number of 32 bits. -/
def word32? (s : List Char) : Option UInt32 := do
  let n ← integer? s
  if 0 ≤ n ∧ n < UInt32.size then some (UInt32.ofNat n.toNat) else none

/-- A word as a number of 64 bits. -/
def word64? (s : List Char) : Option UInt64 := do
  let n ← integer? s
  if 0 ≤ n ∧ n < UInt64.size then some (UInt64.ofNat n.toNat) else none

/-- A word as a signed number of 64 bits. -/
def int64? (s : List Char) : Option Int64 := do
  let n ← integer? s
  if Int64.minValue.toInt ≤ n ∧ n ≤ Int64.maxValue.toInt then some (Int64.ofInt n) else none

end DiceSampling.Json
