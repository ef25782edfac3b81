/-
# Dice notation

Notation is a run of digits, the letter `d` and another run of digits, and
nothing else: no sign, no blank, no other digits than the ten of ASCII.  Reading
looks at the shape first, so a text of the wrong shape is malformed whatever the
size of the numbers in it.
-/

import DiceSampling.Spec
import DiceSampling.Text.Quoted

namespace DiceSampling

/-- Why a text does not denote a specification.  Both causes keep the text. -/
inductive NotationError where
  /-- The text does not have the shape of notation. -/
  | malformed (text : String)
  /-- The text is notation, and one of its numbers needs more than 32 bits. -/
  | overflow (text : String)
  deriving DecidableEq, Repr

namespace NotationError

/-- The text that was read. -/
def text : NotationError → String
  | malformed text => text
  | overflow text => text

/-- What is wrong, in words. -/
def message : NotationError → String
  | malformed text => Quoted.text text ++ " is not of the form <count>d<sides>"
  | overflow text =>
    Quoted.text text ++ " does not fit in a 32-bit dice count or side count"

end NotationError

namespace Notation

/-- The two runs of digits around the `d` of a text that has the shape of notation. -/
def halves (s : List Char) : Option (List Char × List Char) :=
  let count := s.takeWhile Char.isDigit
  match s.dropWhile Char.isDigit with
  | 'd' :: sides =>
    if !count.isEmpty && !sides.isEmpty && sides.all Char.isDigit then some (count, sides) else none
  | _ => none

/-- The runs around the `d` are the only ones: a text has the shape of notation
exactly if it splits into two runs of digits with the letter between them. -/
theorem halves_eq_some_iff {s count sides : List Char} :
    halves s = some (count, sides) ↔
      s = count ++ 'd' :: sides ∧ count ≠ [] ∧ sides ≠ [] ∧
        count.all Char.isDigit ∧ sides.all Char.isDigit := by
  constructor
  · intro h
    have parts := List.takeWhile_append_dropWhile (p := Char.isDigit) (l := s)
    have digits : (s.takeWhile Char.isDigit).all Char.isDigit := List.all_takeWhile
    simp only [halves] at h
    split at h
    · rename_i rest hrest
      split at h
      · rename_i ok
        cases h
        rw [hrest] at parts
        simp only [Bool.and_eq_true, Bool.not_eq_true', List.isEmpty_eq_false_iff] at ok
        exact ⟨parts.symm, ok.1.1, ok.1.2, digits, ok.2⟩
      · cases h
    · cases h
  · rintro ⟨rfl, hcount, hsides, dcount, dsides⟩
    rw [List.all_eq_true] at dcount
    have front : (count ++ 'd' :: sides).takeWhile Char.isDigit = count := by
      rw [List.takeWhile_append_of_pos dcount, List.takeWhile_cons_of_neg (by decide),
        List.append_nil]
    have back : (count ++ 'd' :: sides).dropWhile Char.isDigit = 'd' :: sides := by
      rw [List.dropWhile_append_of_pos dcount, List.dropWhile_cons_of_neg (by decide)]
    simp [halves, front, back, hcount, hsides, dsides]

/-- The value of a run of digits, if 32 bits hold it. -/
def word (digits : List Char) : Option UInt32 :=
  if h : Decimal.value digits < UInt32.size then some (UInt32.ofNatLT _ h) else none

/-- A run denotes a word exactly if the word has its value. -/
theorem word_eq_some_iff {digits : List Char} {w : UInt32} :
    word digits = some w ↔ Decimal.value digits = w.toNat := by
  unfold word
  split
  · rename_i fits
    rw [Option.some.injEq]
    constructor
    · rintro rfl
      exact (UInt32.toNat_ofNatLT).symm
    · intro h
      exact UInt32.toNat.inj (by rw [UInt32.toNat_ofNatLT, h])
  · rename_i large
    constructor
    · intro h
      cases h
    · intro h
      exact absurd (h ▸ w.toNat_lt) large

/-- The specification that a text denotes. -/
def read (text : String) : Except NotationError Spec :=
  match halves text.toList with
  | none => .error (.malformed text)
  | some (count, sides) =>
    match word count, word sides with
    | some count, some sides => .ok ⟨count, sides⟩
    | _, _ => .error (.overflow text)

/-- Checks a text without keeping what it denotes. -/
def check (text : String) : Except NotationError Unit :=
  (read text).map fun _ => ()

end Notation

end DiceSampling
