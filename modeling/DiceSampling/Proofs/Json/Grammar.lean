/-
# The language of JSON

The texts in which a JSON value can be written, as languages over characters: numbers and
the bodies of strings are regular, and arrays and objects put commas and colons, with
blanks around them, between the texts of their parts.  A value that holds a number or a
string of the wrong shape cannot be written at all.

Every number and every body of a string is what reading takes it for.
-/

import DiceSampling.Json.Value
import DiceSampling.Proofs.NotationLanguage

namespace DiceSampling

open scoped Computability

namespace JsonLanguage

open NotationLanguage (digit digitChars run)

/-- One character with a property. -/
def one (p : Char → Prop) : Language Char := {word | ∃ c, p c ∧ word = [c]}

/-- The characters that may stand between marks and words. -/
def blankChars : List Char := [' ', '\t', '\n', '\r']

/-- What may stand between marks and words. -/
def blanks : Language Char := (one (· ∈ blankChars))∗

/-- A mark with blanks around it. -/
def mark (c : Char) : Language Char := blanks * (one (· = c) * blanks)

/-- The whole part of a number. -/
def whole : Language Char := one (· = '0') + one (· ∈ digitChars.tail) * digit∗

/-- A point and the digits after it. -/
def fraction : Language Char := one (· = '.') * run

/-- A power of ten. -/
def exponent : Language Char := one (· ∈ ['e', 'E']) * ((1 + one (· ∈ ['+', '-'])) * run)

/-- A number. -/
def number : Language Char := (1 + one (· = '-')) * (whole * ((1 + fraction) * (1 + exponent)))

/-- The digits of base sixteen. -/
def hexChars : List Char := digitChars ++ "abcdefABCDEF".toList

/-- One digit of base sixteen. -/
def hex : Language Char := one (· ∈ hexChars)

/-- A character of a string that stands for itself. -/
def plain : Language Char := one fun c => 0x20 ≤ c.toNat ∧ c ≠ '"' ∧ c ≠ '\\'

/-- A backslash and the characters that it gives a meaning to. -/
def escaped : Language Char :=
  one (· = '\\') * (one (· ∈ "\"\\/bfnrt".toList) + one (· = 'u') * (hex * (hex * (hex * hex))))

/-- What stands between the quotes of a string. -/
def body : Language Char := (plain + escaped)∗

/-- A string. -/
def quoted (written : List Char) : Language Char :=
  {text | written ∈ body ∧ text = '"' :: written ++ ['"']}

end JsonLanguage

namespace Json

open JsonLanguage

mutual

/-- The texts in which a value can be written. -/
def texts : Json → Language Char
  | null => {['n', 'u', 'l', 'l']}
  | bool true => {['t', 'r', 'u', 'e']}
  | bool false => {['f', 'a', 'l', 's', 'e']}
  | number digits => {text | digits ∈ JsonLanguage.number ∧ text = digits}
  | string body => quoted body
  | array items => mark '[' * (itemTexts items * mark ']')
  | object members => mark '\x7b' * (memberTexts members * mark '\x7d')

/-- The texts of the items of an array. -/
def itemTexts : List Json → Language Char
  | [] => 1
  | [item] => item.texts
  | item :: rest => item.texts * (mark ',' * itemTexts rest)

/-- The texts of the members of an object. -/
def memberTexts : List (List Char × Json) → Language Char
  | [] => 1
  | [(name, value)] => quoted name * (mark ':' * value.texts)
  | (name, value) :: rest =>
    quoted name * (mark ':' * (value.texts * (mark ',' * memberTexts rest)))

end

/-- The texts that consist of a value, with blanks around it. -/
def documents (value : Json) : Language Char := blanks * (value.texts * blanks)

end Json

end DiceSampling
