/-
# Quoted text can be told apart

A backslash between the quotes always begins an escape, and how an escape goes on shows
where it ends and which character it stands for.  So different texts are quoted differently,
and a message that quotes a text names it.
-/

import DiceSampling.Text.Quoted
import Mathlib.Data.List.Basic
import Mathlib.Tactic.Common

namespace DiceSampling.Quoted

/-- A list is split in one way at the first place where an element stands. -/
theorem split_unique {α : Type} {a : α} {front front' back back' : List α} (h : a ∉ front)
    (h' : a ∉ front') (same : front ++ a :: back = front' ++ a :: back') :
    front = front' ∧ back = back' := by
  induction front generalizing front' with
  | nil =>
      cases front' with
      | nil => exact ⟨rfl, (List.cons.inj same).2⟩
      | cons b front' => exact absurd (List.cons.inj same).1 (List.ne_of_not_mem_cons h')
  | cons b front ih =>
      cases front' with
      | nil => exact absurd (List.cons.inj same).1.symm (List.ne_of_not_mem_cons h)
      | cons b' front' =>
          obtain ⟨rfl, tail⟩ := List.cons.inj same
          obtain ⟨rfl, rfl⟩ := ih (List.not_mem_of_not_mem_cons h)
            (List.not_mem_of_not_mem_cons h') tail
          exact ⟨rfl, rfl⟩

/-- The digits of base sixteen determine the number. -/
theorem toDigits_sixteen_injective : Function.Injective (Nat.toDigits 16) := by
  have digit : ∀ a < 16, ∀ b < 16, Nat.digitChar a = Nat.digitChar b → a = b := by decide
  intro m
  induction m using Nat.strongRecOn with
  | ind m ih =>
      intro n same
      rw [Nat.toDigits_eq_if (by decide), Nat.toDigits_eq_if (n := n) (by decide)] at same
      split_ifs at same with small small' small'
      · exact digit m small n small' (List.cons.inj same).1
      · exact absurd (List.append_eq_singleton_iff.mp same.symm) (by simp [Nat.toDigits_ne_nil])
      · exact absurd (List.append_eq_singleton_iff.mp same) (by simp [Nat.toDigits_ne_nil])
      · obtain ⟨front, last⟩ := List.append_inj' same rfl
        have high := ih (m / 16) (by omega) front
        have low := digit _ (Nat.mod_lt m (by decide)) _ (Nat.mod_lt n (by decide))
          (List.cons.inj last).1
        omega

theorem brace_not_mem_toDigits (n : ℕ) : '\x7d' ∉ Nat.toDigits 16 n := by
  have digit : ∀ a < 16, '\x7d' ≠ Nat.digitChar a := by decide
  induction n using Nat.strongRecOn with
  | ind n ih =>
      rw [Nat.toDigits_eq_if (by decide)]
      split_ifs with small
      · exact List.mem_singleton.not.mpr (digit n small)
      · rw [List.mem_append, List.mem_singleton, not_or]
        exact ⟨ih (n / 16) (by omega), digit _ (Nat.mod_lt n (by decide))⟩

/-- The characters that have a letter as their escape, with the letter. -/
def letters : List (Char × Char) :=
  [('\x00', '0'), ('\t', 't'), ('\n', 'n'), ('\r', 'r'), ('"', '"'), ('\\', '\\')]

/-- The three kinds of escapes. -/
inductive Stands : Char → List Char → Prop
  | letter {c letter : Char} (listed : (c, letter) ∈ letters) : Stands c ['\\', letter]
  | codePoint (c : Char) : Stands c (codePoint c)
  | itself {c : Char} (other : c ≠ '\\') : Stands c [c]

theorem stands_escape (c : Char) : Stands c (escape c) := by
  unfold escape
  split
  case h_7 =>
    split_ifs
    · exact .codePoint c
    · exact .itself ‹_›
  all_goals exact .letter (by decide)

theorem letters_unique : ∀ entry ∈ letters, entry.2 ≠ 'u' ∧
    ∀ other ∈ letters, entry.2 = other.2 → entry.1 = other.1 := by
  decide

/-- No escape is the beginning of another one. -/
theorem Stands.unique {c d : Char} {first second rest rest' : List Char} (h : Stands c first)
    (h' : Stands d second) (same : first ++ rest = second ++ rest') : c = d ∧ rest = rest' := by
  cases h with
  | letter listed =>
      obtain ⟨notNumber, unique⟩ := letters_unique _ listed
      cases h' with
      | letter listed' =>
          injection same with _ same
          injection same with letter tail
          exact ⟨unique _ listed' letter, tail⟩
      | codePoint =>
          injection same with _ same
          injection same with letter _
          exact absurd letter notNumber
      | itself other =>
          injection same with backslash _
          exact absurd backslash.symm other
  | codePoint =>
      cases h' with
      | letter listed' =>
          injection same with _ same
          injection same with letter _
          exact absurd letter.symm (letters_unique _ listed').1
      | codePoint =>
          -- the brace after the digits is the first one
          simp only [Quoted.codePoint, List.append_assoc] at same
          have numbers : Nat.toDigits 16 c.toNat ++ '\x7d' :: rest =
              Nat.toDigits 16 d.toNat ++ '\x7d' :: rest' := List.append_cancel_left same
          obtain ⟨digits, tail⟩ :=
            split_unique (brace_not_mem_toDigits _) (brace_not_mem_toDigits _) numbers
          exact ⟨Char.toNat_inj.mp (toDigits_sixteen_injective digits), tail⟩
      | itself other =>
          injection same with backslash _
          exact absurd backslash.symm other
  | itself other =>
      cases h' with
      | letter listed' =>
          injection same with backslash _
          exact absurd backslash other
      | codePoint =>
          injection same with backslash _
          exact absurd backslash other
      | itself other' =>
          injection same with char tail
          exact ⟨char, tail⟩

theorem escape_ne_nil (c : Char) : escape c ≠ [] := by
  have stands := stands_escape c
  generalize escape c = written at stands
  cases stands <;> exact List.cons_ne_nil _ _

theorem flatMap_escape_injective : Function.Injective (List.flatMap escape) := by
  intro s
  induction s with
  | nil =>
      rintro (_ | ⟨d, t⟩) same
      · rfl
      · exact absurd (List.append_eq_nil_iff.mp same.symm).1 (escape_ne_nil d)
  | cons c s ih =>
      rintro (_ | ⟨d, t⟩) same
      · exact absurd (List.append_eq_nil_iff.mp same).1 (escape_ne_nil c)
      · obtain ⟨rfl, tail⟩ := (stands_escape c).unique (stands_escape d) same
        exact congrArg (c :: ·) (ih tail)

/-- A quoted text determines the text. -/
theorem text_injective : Function.Injective text := by
  intro s t same
  have quoted := String.ofList_injective same
  rw [List.cons_append, List.cons_append, List.cons_inj_right, List.append_left_inj] at quoted
  exact String.toList_inj.mp (flatMap_escape_injective quoted)

end DiceSampling.Quoted
