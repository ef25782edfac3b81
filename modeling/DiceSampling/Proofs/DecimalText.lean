/-
# Runs of digits and the numbers they denote

Any number of zeros may stand in front of a run of digits without changing what it
denotes.  Writing the number again leaves out those that are not needed: what comes out
is the run from its first digit that is not zero, or a single zero.
-/

import DiceSampling.Text.Decimal
import Mathlib.Algebra.Group.Nat.Defs

namespace DiceSampling.Decimal

/-- A run of digits without the zeros that it does not need in front. -/
def trim (digits : List Char) : List Char :=
  match digits.dropWhile (· == '0') with
  | [] => ['0']
  | rest => rest

/-- Whether a run has a zero in front that it does not need. -/
def ZeroPadded (digits : List Char) : Prop := ∃ rest, rest ≠ [] ∧ digits = '0' :: rest

theorem trim_cons_zero (rest : List Char) : trim ('0' :: rest) = trim rest := rfl

theorem trim_cons_of_ne {c : Char} (h : c ≠ '0') (rest : List Char) :
    trim (c :: rest) = c :: rest := by
  rw [trim, List.dropWhile_cons_of_neg (by simpa using h)]

/-- A run that is trimmed is not padded. -/
theorem not_zeroPadded_trim (digits : List Char) : ¬ ZeroPadded (trim digits) := by
  rintro ⟨rest, nonempty, h⟩
  induction digits with
  | nil => exact nonempty (List.cons.inj h).2.symm
  | cons c digits ih =>
      by_cases zero : c = '0'
      · subst zero
        rw [trim_cons_zero] at h
        exact ih h
      · rw [trim_cons_of_ne zero] at h
        exact zero (List.cons.inj h).1

theorem trim_eq_self_iff {digits : List Char} (nonempty : digits ≠ []) :
    trim digits = digits ↔ ¬ ZeroPadded digits := by
  constructor
  · intro h
    rw [← h]
    exact not_zeroPadded_trim digits
  · intro notPadded
    cases digits with
    | nil => exact absurd rfl nonempty
    | cons c rest =>
        by_cases zero : c = '0'
        · subst zero
          cases rest with
          | nil => rfl
          | cons c' rest => exact absurd ⟨c' :: rest, List.cons_ne_nil _ _, rfl⟩ notPadded
        · exact trim_cons_of_ne zero rest

theorem digitChar_sub_zero {c : Char} (h : c.isDigit = true) :
    c.toNat - '0'.toNat < 10 ∧ Nat.digitChar (c.toNat - '0'.toNat) = c := by
  obtain ⟨lower, upper⟩ := Char.isDigit_iff_toNat.mp h
  change '0'.toNat ≤ c.toNat at lower
  change c.toNat ≤ '0'.toNat + 9 at upper
  have small : c.toNat - '0'.toNat < 10 := by omega
  refine ⟨small, Char.toNat_inj.mp ?_⟩
  rw [Nat.toNat_digitChar_of_lt_ten small]
  change '0'.toNat + (c.toNat - '0'.toNat) = c.toNat
  omega

/-- After a number that is not zero, the digits of a run are written as they are read. -/
theorem digits_ofDigitChars {rest : List Char} (all : ∀ c ∈ rest, c.isDigit = true) {n : Nat}
    (positive : 0 < n) : digits (Nat.ofDigitChars 10 rest n) = digits n ++ rest := by
  induction rest generalizing n with
  | nil => rw [Nat.ofDigitChars_nil, List.append_nil]
  | cons c rest ih =>
      obtain ⟨small, char⟩ := digitChar_sub_zero (all c List.mem_cons_self)
      have step : digits n ++ [c] = digits (10 * n + (c.toNat - '0'.toNat)) := by
        have h := Nat.toDigits_append_toDigits (show 1 < 10 by decide) positive small
        rwa [Nat.toDigits_of_lt_base small, char] at h
      rw [Nat.ofDigitChars_cons, ih (fun c' hc' => all c' (List.mem_cons_of_mem c hc')) (by omega),
        ← step, List.append_assoc, List.singleton_append]

/-- Writing the number of a run gives the run without the zeros that it does not need. -/
theorem digits_value {run : List Char} (all : ∀ c ∈ run, c.isDigit = true) :
    digits (value run) = trim run := by
  induction run with
  | nil => rfl
  | cons c rest ih =>
      have all' : ∀ c ∈ rest, c.isDigit = true := fun c' hc' => all c' (List.mem_cons_of_mem c hc')
      by_cases zero : c = '0'
      · subst zero
        rw [trim_cons_zero, ← ih all']
        rfl
      · obtain ⟨small, char⟩ := digitChar_sub_zero (all c List.mem_cons_self)
        have positive : 0 < c.toNat - '0'.toNat := by
          rw [Nat.pos_iff_ne_zero]
          intro h
          rw [h] at char
          exact zero char.symm
        rw [value, Nat.ofDigitChars_cons, Nat.mul_zero, Nat.zero_add,
          digits_ofDigitChars all' positive, digits, Nat.toDigits_of_lt_base small, char,
          trim_cons_of_ne zero, List.singleton_append]

theorem forall_isDigit_digits (n : Nat) : ∀ c ∈ digits n, c.isDigit = true :=
  fun _ => isDigit_of_mem_digits

/-- What is written has no zero that it does not need. -/
theorem trim_digits (n : Nat) : trim (digits n) = digits n := by
  rw [← digits_value (forall_isDigit_digits n), value_digits]

/-- Digits in front count for a power of ten each. -/
theorem value_append (front back : List Char) :
    value (front ++ back) = value front * 10 ^ back.length + value back := by
  rw [value, Nat.ofDigitChars_append, Nat.ofDigitChars_eq_ofDigitChars_zero, Nat.mul_comm]
  rfl

@[simp] theorem value_replicate_zero (n : Nat) : value (List.replicate n '0') = 0 := by
  rw [value, Nat.ofDigitChars_replicate_zero, Nat.mul_zero]

/-- The first digit of a number that is not zero is not zero. -/
theorem digits_ne_zero_cons {n : Nat} (hn : n ≠ 0) {rest : List Char} : digits n ≠ '0' :: rest := by
  intro split
  have notPadded := not_zeroPadded_trim (digits n)
  rw [trim_digits] at notPadded
  have value := value_digits n
  cases rest with
  | nil =>
      rw [split] at value
      exact hn value.symm
  | cons c rest => exact notPadded ⟨c :: rest, List.cons_ne_nil c rest, split⟩

/-- A power of ten puts zeros behind the digits of a number. -/
theorem digits_mul_pow {n : Nat} (hn : n ≠ 0) (k : Nat) :
    digits (n * 10 ^ k) = digits n ++ List.replicate k '0' := by
  have zeros : ∀ c ∈ List.replicate k '0', c.isDigit = true := fun c mem => by
    rw [List.eq_of_mem_replicate mem]
    rfl
  rw [← digits_ofDigitChars zeros (Nat.pos_of_ne_zero hn), Nat.ofDigitChars_replicate_zero,
    Nat.mul_comm]

end DiceSampling.Decimal
