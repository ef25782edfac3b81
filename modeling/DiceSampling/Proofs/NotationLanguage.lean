/-
# The language of dice notation

Notation as a regular language, with the value of its runs of digits by places.
Reading accepts this language and no other text, and tells its three outcomes apart:
the shape is looked at first, then the size of both numbers.
-/

import DiceSampling.Notation
import Mathlib.Computability.Language
import Mathlib.Data.Nat.Digits.Defs
import Mathlib.Tactic.IntervalCases

namespace DiceSampling

open scoped Computability

namespace NotationLanguage

/-- The ten digits of ASCII. -/
def digitChars : List Char := ['0', '1', '2', '3', '4', '5', '6', '7', '8', '9']

/-- One digit. -/
def digit : Language Char := {word | ∃ c ∈ digitChars, word = [c]}

/-- A run of digits that is not empty. -/
def run : Language Char := digit * digit∗

/-- Two runs of digits with the letter `d` between them. -/
def dice : Language Char := run * ({['d']} : Language Char) * run

/-- What a run of digits stands for: each digit counts ten times the one after it. -/
def decimal (digits : List Char) : ℕ :=
  Nat.ofDigits 10 (digits.reverse.map digitChars.idxOf)

theorem isDigit_iff_mem_digitChars (c : Char) : c.isDigit = true ↔ c ∈ digitChars := by
  constructor
  · intro h
    have lower : 48 ≤ c.toNat := (Char.isDigit_iff_toNat.mp h).1
    have upper : c.toNat ≤ 57 := (Char.isDigit_iff_toNat.mp h).2
    rw [← Char.ofNat_toNat c]
    interval_cases c.toNat <;> decide
  · intro h
    have all : digitChars.all Char.isDigit = true := by decide
    exact List.all_eq_true.mp all c h

theorem mem_digit_kstar {digits : List Char} :
    digits ∈ digit∗ ↔ digits.all Char.isDigit = true := by
  rw [Language.mem_kstar, List.all_eq_true]
  constructor
  · rintro ⟨words, rfl, single⟩ c hc
    obtain ⟨word, hword, hc⟩ := List.mem_flatten.mp hc
    obtain ⟨c', hc', rfl⟩ := single word hword
    obtain rfl := List.mem_singleton.mp hc
    exact (isDigit_iff_mem_digitChars c).mpr hc'
  · intro all
    refine ⟨digits.map fun c => [c], ?_, ?_⟩
    · rw [← List.flatMap_def, List.flatMap_singleton']
    · rw [List.forall_mem_map]
      intro c hc
      exact ⟨c, (isDigit_iff_mem_digitChars c).mp (all c hc), rfl⟩

theorem mem_run {digits : List Char} :
    digits ∈ run ↔ digits ≠ [] ∧ digits.all Char.isDigit = true := by
  rw [run, Language.mem_mul]
  constructor
  · rintro ⟨_, ⟨c, hc, rfl⟩, rest, hrest, rfl⟩
    refine ⟨List.cons_ne_nil c rest, ?_⟩
    rw [List.singleton_append, List.all_cons, Bool.and_eq_true]
    exact ⟨(isDigit_iff_mem_digitChars c).mpr hc, mem_digit_kstar.mp hrest⟩
  · rintro ⟨nonempty, all⟩
    cases digits with
    | nil => exact absurd rfl nonempty
    | cons c rest =>
        rw [List.all_cons, Bool.and_eq_true] at all
        exact ⟨[c], ⟨c, (isDigit_iff_mem_digitChars c).mp all.1, rfl⟩, rest,
          mem_digit_kstar.mpr all.2, rfl⟩

theorem mem_dice {s : List Char} :
    s ∈ dice ↔ ∃ count ∈ run, ∃ sides ∈ run, s = count ++ 'd' :: sides := by
  rw [dice, Language.mem_mul]
  constructor
  · rintro ⟨_, hfront, sides, hsides, rfl⟩
    obtain ⟨count, hcount, letter, rfl, rfl⟩ := Language.mem_mul.mp hfront
    exact ⟨count, hcount, sides, hsides, by rw [List.append_assoc, List.singleton_append]⟩
  · rintro ⟨count, hcount, sides, hsides, rfl⟩
    refine ⟨count ++ ['d'], Language.mem_mul.mpr ⟨count, hcount, ['d'], rfl, rfl⟩, sides, hsides,
      ?_⟩
    rw [List.append_assoc, List.singleton_append]

/-- Reading a run from the left gives the value by places. -/
theorem value_eq_decimal {digits : List Char} (h : digits.all Char.isDigit = true) :
    Decimal.value digits = decimal digits := by
  induction digits using List.reverseRecOn with
  | nil => rfl
  | append_singleton digits c ih =>
      rw [List.all_append, Bool.and_eq_true] at h
      have last : c.toNat - '0'.toNat = digitChars.idxOf c := by
        have all : digitChars.all (fun c => c.toNat - '0'.toNat == digitChars.idxOf c) = true := by
          decide
        have isDigit : c.isDigit = true := by simpa using h.2
        exact beq_iff_eq.mp
          (List.all_eq_true.mp all c ((isDigit_iff_mem_digitChars c).mp isDigit))
      unfold Decimal.value decimal at *
      rw [Nat.ofDigitChars_append, Nat.ofDigitChars_cons, Nat.ofDigitChars_nil, last, ih h.1,
        List.reverse_append, List.reverse_singleton, List.singleton_append, List.map_cons,
        Nat.ofDigits_cons]
      ring

end NotationLanguage

namespace Notation

open NotationLanguage

variable {text : String} {count sides digits : List Char}

theorem word_of_lt (h : digits ∈ run) (small : decimal digits < 2 ^ 32) :
    ∃ w : UInt32, word digits = some w ∧ w.toNat = decimal digits := by
  have fits : (UInt32.ofNat (decimal digits)).toNat = decimal digits :=
    UInt32.toNat_ofNat_of_lt' small
  refine ⟨UInt32.ofNat (decimal digits), ?_, fits⟩
  rw [word_eq_some_iff, value_eq_decimal (mem_run.mp h).2, fits]

theorem word_of_le (h : digits ∈ run) (large : 2 ^ 32 ≤ decimal digits) : word digits = none := by
  rw [Option.eq_none_iff_forall_ne_some]
  intro w hw
  rw [word_eq_some_iff, value_eq_decimal (mem_run.mp h).2] at hw
  have bound := w.toNat_lt
  omega

theorem read_of_not_mem (h : text.toList ∉ dice) : read text = .error (.malformed text) := by
  have noHalves : halves text.toList = none := by
    rw [Option.eq_none_iff_forall_ne_some]
    rintro ⟨count, sides⟩ found
    obtain ⟨split, hc, hs, dc, ds⟩ := halves_eq_some_iff.mp found
    exact h (mem_dice.mpr ⟨count, mem_run.mpr ⟨hc, dc⟩, sides, mem_run.mpr ⟨hs, ds⟩, split⟩)
  rw [read, noHalves]

theorem halves_of_mem (hcount : count ∈ run) (hsides : sides ∈ run)
    (split : text.toList = count ++ 'd' :: sides) :
    halves text.toList = some (count, sides) := by
  obtain ⟨hc, dc⟩ := mem_run.mp hcount
  obtain ⟨hs, ds⟩ := mem_run.mp hsides
  exact halves_eq_some_iff.mpr ⟨split, hc, hs, dc, ds⟩

theorem read_of_le (hcount : count ∈ run) (hsides : sides ∈ run)
    (split : text.toList = count ++ 'd' :: sides)
    (large : 2 ^ 32 ≤ decimal count ∨ 2 ^ 32 ≤ decimal sides) :
    read text = .error (.overflow text) := by
  rw [read, halves_of_mem hcount hsides split]
  dsimp only
  rcases large with large | large
  · rw [word_of_le hcount large]
  · rw [word_of_le hsides large]
    rcases word count <;> rfl

theorem read_of_lt (hcount : count ∈ run) (hsides : sides ∈ run)
    (split : text.toList = count ++ 'd' :: sides)
    (smallCount : decimal count < 2 ^ 32) (smallSides : decimal sides < 2 ^ 32) :
    ∃ spec, read text = .ok spec ∧ spec.count.toNat = decimal count ∧
      spec.sides.toNat = decimal sides := by
  obtain ⟨c, hc, valueCount⟩ := word_of_lt hcount smallCount
  obtain ⟨s, hs, valueSides⟩ := word_of_lt hsides smallSides
  refine ⟨⟨c, s⟩, ?_, valueCount, valueSides⟩
  rw [read, halves_of_mem hcount hsides split]
  dsimp only
  rw [hc, hs]

theorem read_cases (text : String) :
    (text.toList ∉ dice ∧ read text = .error (.malformed text)) ∨
    (∃ count ∈ run, ∃ sides ∈ run, text.toList = count ++ 'd' :: sides ∧
      (2 ^ 32 ≤ decimal count ∨ 2 ^ 32 ≤ decimal sides) ∧
      read text = .error (.overflow text)) ∨
    ∃ count ∈ run, ∃ sides ∈ run, text.toList = count ++ 'd' :: sides ∧
      ∃ spec, read text = .ok spec ∧ spec.count.toNat = decimal count ∧
        spec.sides.toNat = decimal sides := by
  by_cases shape : text.toList ∈ dice
  · obtain ⟨count, hcount, sides, hsides, split⟩ := mem_dice.mp shape
    by_cases large : 2 ^ 32 ≤ decimal count ∨ 2 ^ 32 ≤ decimal sides
    · exact Or.inr (Or.inl ⟨count, hcount, sides, hsides, split, large,
        read_of_le hcount hsides split large⟩)
    · obtain ⟨smallCount, smallSides⟩ := not_or.mp large
      exact Or.inr (Or.inr ⟨count, hcount, sides, hsides, split,
        read_of_lt hcount hsides split (not_le.mp smallCount) (not_le.mp smallSides)⟩)
  · exact Or.inl ⟨shape, read_of_not_mem shape⟩

/-- A text outside the language is malformed. In the language, a number that needs more than 32
bits makes the text overflow, and otherwise the text denotes the two numbers. -/
theorem read_outcomes (text : String) :
    (read text = .error (.malformed text) ↔ text.toList ∉ dice) ∧
    (read text = .error (.overflow text) ↔
      ∃ count ∈ run, ∃ sides ∈ run, text.toList = count ++ 'd' :: sides ∧
        (2 ^ 32 ≤ decimal count ∨ 2 ^ 32 ≤ decimal sides)) ∧
    ∀ spec, read text = .ok spec ↔
      ∃ count ∈ run, ∃ sides ∈ run, text.toList = count ++ 'd' :: sides ∧
        spec.count.toNat = decimal count ∧ spec.sides.toNat = decimal sides := by
  refine ⟨⟨?_, read_of_not_mem⟩, ⟨?_, ?_⟩, fun spec => ⟨?_, ?_⟩⟩
  · intro malformed
    rcases read_cases text with ⟨outside, -⟩ | ⟨_, _, _, _, _, _, h⟩ | ⟨_, _, _, _, _, _, h, -⟩
    · exact outside
    · exact absurd (malformed.symm.trans h) (by simp)
    · exact absurd (malformed.symm.trans h) (by simp)
  · intro overflow
    rcases read_cases text with ⟨-, h⟩ | ⟨count, hcount, sides, hsides, split, large, -⟩ |
      ⟨_, _, _, _, _, _, h, -⟩
    · exact absurd (overflow.symm.trans h) (by simp)
    · exact ⟨count, hcount, sides, hsides, split, large⟩
    · exact absurd (overflow.symm.trans h) (by simp)
  · rintro ⟨count, hcount, sides, hsides, split, large⟩
    exact read_of_le hcount hsides split large
  · intro ok
    rcases read_cases text with ⟨-, h⟩ | ⟨_, _, _, _, _, _, h⟩ |
      ⟨count, hcount, sides, hsides, split, spec', h, values⟩
    · exact absurd (ok.symm.trans h) (by simp)
    · exact absurd (ok.symm.trans h) (by simp)
    · rw [ok, Except.ok.injEq] at h
      exact ⟨count, hcount, sides, hsides, split, h ▸ values⟩
  · rintro ⟨count, hcount, sides, hsides, split, valueCount, valueSides⟩
    obtain ⟨⟨c, s⟩, ok, valueCount', valueSides'⟩ := read_of_lt hcount hsides split
      (valueCount ▸ spec.count.toNat_lt) (valueSides ▸ spec.sides.toNat_lt)
    rw [ok, Except.ok.injEq]
    obtain ⟨c', s'⟩ := spec
    rw [Spec.mk.injEq]
    exact ⟨UInt32.toNat_inj.mp (valueCount'.trans valueCount.symm),
      UInt32.toNat_inj.mp (valueSides'.trans valueSides.symm)⟩

end Notation

end DiceSampling
