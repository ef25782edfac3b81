/-
# Indented JSON text

A value over several lines: each item and member stands on a line of its own,
two blanks deeper than what it is part of.  Empty arrays and objects stay on one
line.
-/

import DiceSampling.Json.Value

namespace DiceSampling.Json

/-- The start of a line at a depth. -/
def newLine (depth : Nat) : List Char := '\n' :: List.replicate (2 * depth) ' '

mutual

/-- The characters of a value whose last line stands at a depth. -/
def indented (depth : Nat) : Json → List Char
  | null => Token.null.chars
  | bool b => (Token.bool b).chars
  | number digits => digits
  | string body => (Token.string body).chars
  | array [] => ['[', ']']
  | array (item :: rest) =>
    '[' :: newLine (depth + 1) ++ item.indented (depth + 1) ++ indentedItems (depth + 1) rest
      ++ newLine depth ++ [']']
  | object [] => ['\x7b', '\x7d']
  | object ((name, value) :: rest) =>
    '\x7b' :: newLine (depth + 1) ++ (Token.string name).chars ++ [':', ' ']
      ++ value.indented (depth + 1) ++ indentedMembers (depth + 1) rest
      ++ newLine depth ++ ['\x7d']

/-- The characters of the items after the first, each after a comma. -/
def indentedItems (depth : Nat) : List Json → List Char
  | [] => []
  | item :: rest => ',' :: newLine depth ++ item.indented depth ++ indentedItems depth rest

/-- The characters of the members after the first, each after a comma. -/
def indentedMembers (depth : Nat) : List (List Char × Json) → List Char
  | [] => []
  | (name, value) :: rest =>
    ',' :: newLine depth ++ (Token.string name).chars ++ [':', ' '] ++ value.indented depth
      ++ indentedMembers depth rest

end

/-- A value over several lines. -/
def renderIndented (value : Json) : String := String.ofList (value.indented 0)

end DiceSampling.Json
