/-
# Decimal text

Natural numbers and integers as decimal digits, and the value of a run of
digits.  Writing uses no superfluous zero; reading takes any number of them.
-/

namespace DiceSampling.Decimal

/-- The number that a run of digits denotes; the empty run denotes zero. -/
def value (digits : List Char) : Nat := Nat.ofDigitChars 10 digits 0

/-- The digits of `n` without a leading zero; zero itself is one digit. -/
def digits (n : Nat) : List Char := Nat.toDigits 10 n

/-- The text of a natural number. -/
def text (n : Nat) : String := String.ofList (digits n)

/-- The text of an integer: a minus sign comes before the digits of a negative one. -/
def signedText : Int → String
  | .ofNat n => text n
  | .negSucc n => "-" ++ text (n + 1)

/-- The digits of `n`, with zeros in front up to `width` of them. -/
def paddedDigits (width n : Nat) : List Char :=
  List.replicate (width - (digits n).length) '0' ++ digits n

/-- Reading the digits of a number gives the number back. -/
@[simp] theorem value_digits (n : Nat) : value (digits n) = n :=
  Nat.ofDigitChars_ten_toDigits

/-- Every character that writing produces is a digit. -/
theorem isDigit_of_mem_digits {n : Nat} {c : Char} (h : c ∈ digits n) : c.isDigit = true :=
  Nat.isDigit_of_mem_toDigits (by decide) (by decide) h

end DiceSampling.Decimal
