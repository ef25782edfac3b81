/-
# The numbers that are written in JSON

A number of JSON stands for a rational number: its digits count from the point, and the power
of ten behind them moves the point.  The shortest text of a float is such a number, in each of
the forms that it can have, and what it stands for is rounded to the float.  So a reader that
rounds correctly gets back every float that is written.
-/

import DiceSampling.Proofs.Binary64.Conversion
import DiceSampling.Proofs.Binary64.Shortest
import DiceSampling.Proofs.Json.Words

namespace DiceSampling

open scoped Computability

namespace Json

open JsonLanguage

/-- The power of ten that is written at the end of a number. -/
def tenPower : List Char → ℤ
  | _ :: '+' :: digits => Decimal.value digits
  | _ :: '-' :: digits => -(Decimal.value digits : ℤ)
  | _ :: digits => Decimal.value digits
  | [] => 0

/-- The number that some digits and what follows them stand for. -/
def magnitudeOf (whole : List Char) : List Char → ℚ
  | '.' :: rest =>
    let places := rest.takeWhile Char.isDigit
    Decimal.value (whole ++ places) * 10 ^ (tenPower (rest.dropWhile Char.isDigit) - places.length)
  | rest => Decimal.value whole * 10 ^ tenPower rest

/-- The number that a word without a sign stands for. -/
def magnitude (word : List Char) : ℚ :=
  magnitudeOf (word.takeWhile Char.isDigit) (word.dropWhile Char.isDigit)

/-- The number that a word stands for. -/
def rational : List Char → ℚ
  | '-' :: rest => -magnitude rest
  | word => magnitude word

/-- Places with a point in front, if there are any. -/
def pointed (places : List Char) : List Char := if places = [] then [] else '.' :: places

section Word

variable {whole places power : List Char}

theorem pointed_mem (digits : places.all Char.isDigit = true) :
    pointed places ∈ 1 + fraction := by
  unfold pointed
  split_ifs with empty
  · exact .inl rfl
  · exact .inr ⟨['.'], ⟨'.', rfl, rfl⟩, places, NotationLanguage.mem_run.mpr ⟨empty, digits⟩, rfl⟩

variable (hwhole : whole ∈ JsonLanguage.whole) (digits : places.all Char.isDigit = true)
  (hpower : power ∈ 1 + exponent)
include hwhole digits hpower

theorem word_mem_number : whole ++ (pointed places ++ power) ∈ JsonLanguage.number :=
  ⟨[], .inl rfl, _, ⟨whole, hwhole, _, ⟨_, pointed_mem digits, power, hpower, rfl⟩, rfl⟩, rfl⟩

theorem neg_word_mem_number : '-' :: (whole ++ (pointed places ++ power)) ∈ JsonLanguage.number :=
  ⟨['-'], .inr ⟨'-', rfl, rfl⟩, _,
    ⟨whole, hwhole, _, ⟨_, pointed_mem digits, power, hpower, rfl⟩, rfl⟩, rfl⟩

/-- All digits of a word count, the last of them for the power and a tenth for each place. -/
theorem magnitude_word : magnitude (whole ++ (pointed places ++ power)) =
    Decimal.value (whole ++ places) * 10 ^ (tenPower power - places.length) := by
  obtain ⟨-, ends, notPoint⟩ := isExponent_of_mem hpower
  have allWhole := (isWhole_of_mem_whole hwhole).2
  have front : (pointed places ++ power).takeWhile Char.isDigit = [] := by
    unfold pointed
    split_ifs
    · exact ends
    · rfl
  obtain ⟨taken, left⟩ := span_digits allWhole front
  rw [magnitude, taken, left]
  unfold pointed
  split_ifs with empty
  · rw [empty, List.nil_append, List.append_nil, List.length_nil, Nat.cast_zero, sub_zero,
      magnitudeOf]
    exact notPoint
  · obtain ⟨taken', left'⟩ := span_digits digits ends
    rw [List.cons_append, magnitudeOf, taken', left']

end Word

section Layout

open Binary64

theorem exponentText_mem (e : ℤ) : exponentText e ∈ 1 + exponent := by
  have sign : (if 0 ≤ e then '+' else '-') ∈ ['+', '-'] := by
    split_ifs <;> decide
  exact .inr ⟨['e'], ⟨'e', by decide, rfl⟩, _, ⟨_, .inr ⟨_, sign, rfl⟩, Decimal.digits e.natAbs,
    NotationLanguage.mem_run.mpr ⟨Nat.toDigits_ne_nil,
      List.all_eq_true.mpr (Decimal.forall_isDigit_digits _)⟩, rfl⟩, rfl⟩

theorem tenPower_exponentText (e : ℤ) : tenPower (exponentText e) = e := by
  unfold exponentText
  split_ifs with nonneg
  · rw [tenPower, Decimal.value_digits]
    omega
  · rw [tenPower, Decimal.value_digits]
    omega

/-- A word without a sign and the number that it stands for. -/
inductive Unsigned (text : List Char) (x : ℚ) : Prop
  | word {whole places power : List Char} (hwhole : whole ∈ JsonLanguage.whole)
      (digits : places.all Char.isDigit = true) (hpower : power ∈ 1 + exponent)
      (written : text = whole ++ (pointed places ++ power))
      (value : x = Decimal.value (whole ++ places) * 10 ^ (tenPower power - places.length))

variable {d : ℕ} {k : ℤ}

/-- The digits of a number with a point among them, and a power behind them. -/
theorem unsigned_of_digits_eq {front back power text : List Char} (hd : d ≠ 0)
    (split : Decimal.digits d = front ++ back) (nonempty : front ≠ [])
    (hpower : power ∈ 1 + exponent) (written : text = front ++ (pointed back ++ power))
    (exponent : tenPower power - back.length = k) : Unsigned text (d * 10 ^ k) := by
  have digits := Decimal.forall_isDigit_digits d
  rw [split, List.forall_mem_append] at digits
  refine .word (mem_whole_of_digits_eq hd split nonempty) (List.all_eq_true.mpr digits.2) hpower
    written ?_
  rw [← split, Decimal.value_digits, exponent]

theorem zero_mem_whole : ['0'] ∈ JsonLanguage.whole := .inl ⟨'0', rfl, rfl⟩

theorem unsigned_trailing_zeros (hd : d ≠ 0) (n : ℕ) :
    Unsigned (Decimal.digits d ++ List.replicate n '0' ++ ['.', '0']) (d * 10 ^ (n : ℤ)) := by
  rw [← Decimal.digits_mul_pow hd]
  refine .word (JsonLanguage.digits_mem_whole (d * 10 ^ n))
    (show ['0'].all Char.isDigit = true by decide) (.inl rfl) rfl ?_
  rw [Decimal.value_append, Decimal.value_digits, show Decimal.value ['0'] = 0 from rfl]
  simp [tenPower]

theorem unsigned_leading_zeros (d n : ℕ) :
    Unsigned ('0' :: '.' :: List.replicate n '0' ++ Decimal.digits d)
      (d * 10 ^ (-(n + (Decimal.digits d).length : ℤ))) := by
  have digits : (List.replicate n '0' ++ Decimal.digits d).all Char.isDigit = true := by
    rw [List.all_append, List.all_eq_true.mpr (Decimal.forall_isDigit_digits d), List.all_replicate]
    simp
  refine .word zero_mem_whole digits (.inl rfl) ?_ ?_
  · rw [pointed, if_neg (by simp [Decimal.digits, Nat.toDigits_ne_nil])]
    simp
  · rw [Decimal.value_append, Decimal.value_append, Decimal.value_digits,
      Decimal.value_replicate_zero, show Decimal.value ['0'] = 0 from rfl]
    simp [tenPower]

/-- A positive decimal is written as a number without a sign, which stands for it. -/
theorem unsigned_layout (hd : d ≠ 0) (k : ℤ) : Unsigned (layout d k).toList (d * 10 ^ k) := by
  have length := Nat.length_toDigits_pos (b := 10) (n := d)
  change 0 < (Decimal.digits d).length at length
  unfold layout
  dsimp only
  rw [String.toList_ofList]
  generalize hpoint : ((Decimal.digits d).length : ℤ) + k = point
  have places : (if (Decimal.digits d).length = 1 then [] else '.' :: (Decimal.digits d).drop 1) =
      pointed ((Decimal.digits d).drop 1) := by
    have single : (Decimal.digits d).length = 1 ↔ (Decimal.digits d).drop 1 = [] := by
      rw [List.drop_eq_nil_iff]
      omega
    simp only [pointed, single]
  rw [places]
  split_ifs with whole mixed small
  · have word := unsigned_trailing_zeros hd k.toNat
    rwa [Int.toNat_of_nonneg whole.1] at word
  · have few : point.toNat < (Decimal.digits d).length := by omega
    refine unsigned_of_digits_eq hd (List.take_append_drop point.toNat _).symm ?_ (.inl rfl) ?_ ?_
    · exact List.ne_nil_of_length_pos (by rw [List.length_take]; omega)
    · rw [pointed, if_neg (List.ne_nil_of_length_pos (by rw [List.length_drop]; omega)),
        List.append_nil]
    · rw [tenPower, List.length_drop]
      omega
  · have word := unsigned_leading_zeros d (-point).toNat
    rwa [show (-((-point).toNat + (Decimal.digits d).length : ℤ)) = k by omega] at word
  · refine unsigned_of_digits_eq hd (List.take_append_drop 1 _).symm ?_
      (exponentText_mem (point - 1)) (List.append_assoc ..) ?_
    · exact List.ne_nil_of_length_pos (by rw [List.length_take]; omega)
    · rw [tenPower_exponentText, List.length_drop]
      omega

end Layout

section Unsigned

variable {text : List Char} {x : ℚ} (h : Unsigned text x)
include h

theorem Unsigned.mem_number : text ∈ JsonLanguage.number := by
  obtain ⟨hwhole, digits, hpower, rfl, -⟩ := h
  exact word_mem_number hwhole digits hpower

theorem Unsigned.neg_mem_number : '-' :: text ∈ JsonLanguage.number := by
  obtain ⟨hwhole, digits, hpower, rfl, -⟩ := h
  exact neg_word_mem_number hwhole digits hpower

theorem Unsigned.rational_neg : rational ('-' :: text) = -x := by
  obtain ⟨hwhole, digits, hpower, rfl, rfl⟩ := h
  rw [rational, magnitude_word hwhole digits hpower]

theorem Unsigned.rational_eq : rational text = x := by
  obtain ⟨hwhole, digits, hpower, rfl, rfl⟩ := h
  rw [rational, magnitude_word hwhole digits hpower]
  -- the first character is a digit, and so no sign
  obtain ⟨isWhole, all⟩ := isWhole_of_mem_whole hwhole
  rename_i whole _ _
  cases whole with
  | nil => cases isWhole
  | cons first rest =>
      rintro others same
      obtain rfl := (List.cons.inj same).1
      exact ne_cons_of_all all (by decide) rest rfl

end Unsigned

section Float

open Binary64

variable {x : Float} {v : ℚ}

theorem unsigned_zero : Unsigned "0.0".toList 0 := by
  refine .word zero_mem_whole (show ['0'].all Char.isDigit = true by decide) (.inl rfl) rfl ?_
  rw [show Decimal.value (['0'] ++ ['0']) = 0 from rfl, Nat.cast_zero, zero_mul]

/-- A float that denotes a number is written as a sign and a word that is rounded to it. -/
theorem exists_shortestText_eq (h : value? x = some v) :
    ∃ negative text w, (shortestText x).toList = (sign negative).toList ++ text ∧
      Unsigned text w ∧ v = signed negative (rounded w) := by
  obtain ⟨negative, m, q, reading, normalized, rfl⟩ := exists_ofFloat_eq_finite h
  unfold shortestText
  rw [reading]
  dsimp only
  rw [String.toList_append]
  by_cases zero : m = 0
  · refine ⟨negative, _, 0, rfl, ?_, ?_⟩
    · rw [if_pos zero]
      exact unsigned_zero
    · rw [zero, Nat.cast_zero, zero_mul, rounded_zero]
  · refine ⟨negative, _, (shortest m q).1 * 10 ^ (shortest m q).2, rfl, ?_, ?_⟩
    · rw [if_neg zero]
      exact unsigned_layout (shortest_fst_ne_zero normalized zero) _
    · rw [rounded_shortest normalized zero]

theorem toList_shortestText_mem_number (h : value? x = some v) :
    (shortestText x).toList ∈ JsonLanguage.number := by
  obtain ⟨negative, text, w, written, unsigned, -⟩ := exists_shortestText_eq h
  rw [written]
  cases negative
  · exact unsigned.mem_number
  · exact unsigned.neg_mem_number

/-- What is written of a float stands for a number that is rounded to it. -/
theorem rounded_rational_shortestText (h : value? x = some v) :
    rounded (rational (shortestText x).toList) = v := by
  obtain ⟨negative, text, w, written, unsigned, rfl⟩ := exists_shortestText_eq h
  rw [written]
  cases negative
  · change rounded (rational text) = _
    rw [unsigned.rational_eq, signed_false]
  · change rounded (rational ('-' :: text)) = _
    rw [unsigned.rational_neg, rounded_neg, signed_true]

end Float

end Json

end DiceSampling
