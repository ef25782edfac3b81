/-
# Strings in JSON text

Between its quotes a string may hold escapes.  A well-formed body needs escapes
of the right shape only; to denote a text, its escapes for halves of a pair must
also come in pairs.
-/

namespace DiceSampling.Json

/-- What one place of a string's body stands for. -/
inductive CodeUnit where
  | char (c : Char)
  /-- One half of a pair that stands for a character together. -/
  | half (n : Nat)
  deriving DecidableEq, Repr

namespace CodeUnit

/-- What a number of sixteen bits stands for. -/
def ofNat (n : Nat) : CodeUnit :=
  if 0xd800 ≤ n ∧ n < 0xe000 then half n else char (Char.ofNat n)

/-- The text that code units denote, if their halves come in pairs. -/
def join : List CodeUnit → Option (List Char)
  | [] => some []
  | char c :: rest => (join rest).map (c :: ·)
  | half high :: half low :: rest =>
    if high < 0xdc00 ∧ 0xdc00 ≤ low then
      (join rest).map (Char.ofNat (0x10000 + (high - 0xd800) * 0x400 + (low - 0xdc00)) :: ·)
    else none
  | half _ :: _ => none

end CodeUnit

/-- The value of a hexadecimal digit. -/
def hexDigit? (c : Char) : Option Nat :=
  if c.isDigit then some (c.toNat - '0'.toNat)
  else if 'a' ≤ c ∧ c ≤ 'f' then some (c.toNat - 'a'.toNat + 10)
  else if 'A' ≤ c ∧ c ≤ 'F' then some (c.toNat - 'A'.toNat + 10)
  else none

/-- The value of four hexadecimal digits. -/
def hexValue? (a b c d : Char) : Option Nat := do
  return (((← hexDigit? a) * 16 + (← hexDigit? b)) * 16 + (← hexDigit? c)) * 16 + (← hexDigit? d)

/-- The character that a letter after a backslash stands for. -/
def escaped? : Char → Option Char
  | '"' => some '"'
  | '\\' => some '\\'
  | '/' => some '/'
  | 'b' => some '\x08'
  | 'f' => some '\x0c'
  | 'n' => some '\n'
  | 'r' => some '\r'
  | 't' => some '\t'
  | _ => none

/-- The code units of a string's body; none if it is not well formed. -/
def codeUnits : List Char → Option (List CodeUnit)
  | [] => some []
  | '\\' :: 'u' :: a :: b :: c :: d :: rest => do
    let n ← hexValue? a b c d
    return .ofNat n :: (← codeUnits rest)
  | '\\' :: e :: rest => do
    let c ← escaped? e
    return .char c :: (← codeUnits rest)
  | c :: rest =>
    if c = '\\' ∨ c = '"' ∨ c.toNat < 0x20 then none
    else (codeUnits rest).map (.char c :: ·)

/-- Whether a string may have this body. -/
def isBody (body : List Char) : Bool := (codeUnits body).isSome

/-- The text that a string's body denotes. -/
def unescape (body : List Char) : Option (List Char) := (codeUnits body).bind CodeUnit.join

/-- What stands for one character in the body of a string that is written. -/
def escape (c : Char) : List Char :=
  match c with
  | '"' => ['\\', '"']
  | '\\' => ['\\', '\\']
  | '\x08' => ['\\', 'b']
  | '\x0c' => ['\\', 'f']
  | '\n' => ['\\', 'n']
  | '\r' => ['\\', 'r']
  | '\t' => ['\\', 't']
  | c =>
    if c.toNat < 0x20 then
      ['\\', 'u', '0', '0'] ++ List.replicate (2 - (Nat.toDigits 16 c.toNat).length) '0'
        ++ Nat.toDigits 16 c.toNat
    else [c]

end DiceSampling.Json
