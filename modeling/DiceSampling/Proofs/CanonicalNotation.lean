/-
# The canonical form of dice notation

A specification has one notation that is written and many that are read.  The written
one is read back as the specification, and it is what any other notation of the
specification becomes when the zeros are left out that its numbers do not need.
-/

import DiceSampling.Proofs.DecimalText
import DiceSampling.Proofs.NotationLanguage

namespace DiceSampling

namespace NotationLanguage

open Decimal

/-- Notation without the zeros that its two numbers do not need. -/
def canonical (text : String) : String :=
  String.ofList (trim (text.toList.takeWhile (· != 'd')) ++
    'd' :: trim (text.toList.dropWhile (· != 'd')).tail)

variable {count sides digits : List Char}

theorem forall_isDigit_of_mem_run (h : digits ∈ run) : ∀ c ∈ digits, c.isDigit = true :=
  List.all_eq_true.mp (mem_run.mp h).2

theorem digits_mem_run (n : ℕ) : Decimal.digits n ∈ run :=
  mem_run.mpr ⟨Nat.toDigits_ne_nil, List.all_eq_true.mpr (forall_isDigit_digits n)⟩

theorem trim_mem_run (h : digits ∈ run) : trim digits ∈ run := by
  rw [← digits_value (forall_isDigit_of_mem_run h)]
  exact digits_mem_run _

/-- The letter is where the first run ends. -/
theorem canonical_eq {text : String} (hcount : count ∈ run)
    (split : text.toList = count ++ 'd' :: sides) :
    canonical text = String.ofList (trim count ++ 'd' :: trim sides) := by
  have inside : ∀ c ∈ count, (c != 'd') = true := by
    intro c hc
    rw [bne_iff_ne]
    rintro rfl
    exact absurd (forall_isDigit_of_mem_run hcount _ hc) (by decide)
  rw [canonical, split, List.takeWhile_append_of_pos inside, List.dropWhile_append_of_pos inside,
    List.takeWhile_cons_of_neg (by decide), List.dropWhile_cons_of_neg (by decide),
    List.append_nil, List.tail_cons]

end NotationLanguage

namespace Notation

open Decimal NotationLanguage

variable {text : String} {spec : Spec}

theorem toList_text (spec : Spec) :
    spec.text.toList = digits spec.count.toNat ++ 'd' :: digits spec.sides.toNat := by
  have letter : "d".toList = ['d'] := rfl
  simp only [Spec.text, Decimal.text, String.toList_append, String.toList_ofList, letter,
    List.append_assoc, List.singleton_append]

theorem read_text (spec : Spec) : read spec.text = .ok spec := by
  rw [read, halves_of_mem (digits_mem_run _) (digits_mem_run _) (toList_text spec)]
  dsimp only
  rw [word_eq_some_iff.mpr (value_digits spec.count.toNat),
    word_eq_some_iff.mpr (value_digits spec.sides.toNat)]

/-- What is read is written as the two trimmed runs. -/
theorem exists_runs_of_read (h : read text = .ok spec) :
    ∃ count ∈ run, ∃ sides ∈ run, text.toList = count ++ 'd' :: sides ∧
      spec.text.toList = trim count ++ 'd' :: trim sides := by
  rcases read_cases text with ⟨-, h'⟩ | ⟨_, _, _, _, _, _, h'⟩ |
    ⟨count, hcount, sides, hsides, split, spec', h', valueCount, valueSides⟩
  · exact absurd (h.symm.trans h') (by simp)
  · exact absurd (h.symm.trans h') (by simp)
  · rw [h, Except.ok.injEq] at h'
    subst h'
    refine ⟨count, hcount, sides, hsides, split, ?_⟩
    rw [toList_text, valueCount, valueSides, ← value_eq_decimal (mem_run.mp hcount).2,
      ← value_eq_decimal (mem_run.mp hsides).2, digits_value (forall_isDigit_of_mem_run hcount),
      digits_value (forall_isDigit_of_mem_run hsides)]

theorem text_eq_canonical (h : read text = .ok spec) : spec.text = canonical text := by
  obtain ⟨count, hcount, sides, -, split, written⟩ := exists_runs_of_read h
  rw [canonical_eq hcount split, ← written, String.ofList_toList]

/-- Two pairs of runs that make the same text are the same. -/
theorem runs_eq {count sides count' sides' : List Char} (hcount : count ∈ run)
    (hsides : sides ∈ run) (hcount' : count' ∈ run) (hsides' : sides' ∈ run)
    (h : count ++ 'd' :: sides = count' ++ 'd' :: sides') : count = count' ∧ sides = sides' := by
  have text : (String.ofList (count ++ 'd' :: sides)).toList = count ++ 'd' :: sides :=
    String.toList_ofList
  have found := halves_of_mem hcount hsides text
  have found' := halves_of_mem hcount' hsides' (text.trans h)
  rw [found, Option.some.injEq, Prod.mk.injEq] at found'
  exact found'

/-- Every specification is read from its own notation. The notation of what is read from a text
is the text without the zeros that its two runs do not need, so it is the text itself exactly
if neither run has one, and two texts denote the same specification exactly if they have the
same canonical form. -/
theorem read_canonical :
    (∀ spec : Spec, read spec.text = .ok spec) ∧
    ∀ (text : String) (spec : Spec), read text = .ok spec →
      spec.text = canonical text ∧
      (∃ count ∈ run, ∃ sides ∈ run, text.toList = count ++ 'd' :: sides ∧
        spec.text.toList = trim count ++ 'd' :: trim sides ∧
        (spec.text = text ↔ ¬ ZeroPadded count ∧ ¬ ZeroPadded sides)) ∧
      ∀ (text' : String) (spec' : Spec), read text' = .ok spec' →
        (spec = spec' ↔ canonical text = canonical text') := by
  refine ⟨read_text, fun text spec h => ⟨text_eq_canonical h, ?_, fun text' spec' h' => ?_⟩⟩
  · obtain ⟨count, hcount, sides, hsides, split, written⟩ := exists_runs_of_read h
    refine ⟨count, hcount, sides, hsides, split, written, ?_⟩
    rw [← trim_eq_self_iff (mem_run.mp hcount).1, ← trim_eq_self_iff (mem_run.mp hsides).1,
      ← String.toList_inj, written, split]
    constructor
    · exact runs_eq (trim_mem_run hcount) (trim_mem_run hsides) hcount hsides
    · rintro ⟨sameCount, sameSides⟩
      rw [sameCount, sameSides]
  · rw [← text_eq_canonical h, ← text_eq_canonical h']
    constructor
    · rintro rfl
      rfl
    · intro same
      have again := read_text spec
      rw [same, read_text spec', Except.ok.injEq] at again
      exact again.symm

/-- Seven dice without faces, with zeros in front of both numbers. -/
theorem read_canonical_of_padded_text :
    read "007d00" = .ok ⟨7, 0⟩ ∧ canonical "007d00" = "7d0" ∧ Spec.text ⟨7, 0⟩ = "7d0" := by
  have h : read "007d00" = .ok ⟨7, 0⟩ := by decide
  have form := (read_canonical.2 "007d00" ⟨7, 0⟩ h).1
  have written : canonical "007d00" = "7d0" := by decide
  exact ⟨h, written, form.trans written⟩

end Notation

end DiceSampling
