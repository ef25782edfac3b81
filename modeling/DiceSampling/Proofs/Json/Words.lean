/-
# Numbers and strings of JSON

Whatever the grammar makes a number is recognised as one, and whatever it makes the body of
a string is well formed.  A text that is escaped is a body that denotes the text.
-/

import DiceSampling.Proofs.DecimalText
import DiceSampling.Proofs.Json.Grammar
import Mathlib.Order.CompletePartialOrder

namespace DiceSampling

open scoped Computability

namespace JsonLanguage

open NotationLanguage (digit digitChars run)
open Json

variable {p : Char → Prop} {word rest : List Char}

/-- What holds of the empty word, and of a word with one more part if it holds without it,
holds of every sequence of parts. -/
theorem of_mem_kstar {l : Language Char} {P : List Char → Prop} (nil : P [])
    (append : ∀ part ∈ l, ∀ rest, P rest → P (part ++ rest)) (h : word ∈ l∗) : P word := by
  have closed : l∗ ≤ ({word | P word} : Set (List Char)) := by
    apply kstar_le_of_mul_le_right
    · rintro _ rfl
      exact nil
    · rintro _ ⟨part, hpart, rest, hrest, rfl⟩
      exact append part hpart rest hrest
  exact closed h

/-- A part of a string is a character, a letter after a backslash, or the number of a
character in base sixteen. -/
theorem mem_part {part : List Char} (h : part ∈ plain + escaped) :
    (∃ c, 0x20 ≤ c.toNat ∧ c ≠ '"' ∧ c ≠ '\\' ∧ part = [c]) ∨
    (∃ c ∈ "\"\\/bfnrt".toList, part = ['\\', c]) ∨
    ∃ a ∈ hexChars, ∃ b ∈ hexChars, ∃ c ∈ hexChars, ∃ d ∈ hexChars,
      part = ['\\', 'u', a, b, c, d] := by
  rcases h with ⟨c, ⟨printable, quote, backslash⟩, rfl⟩ |
    ⟨_, ⟨_, rfl, rfl⟩, _, ⟨c, hc, rfl⟩ | ⟨_, ⟨_, rfl, rfl⟩, _, ⟨_, ⟨a, ha, rfl⟩, _,
      ⟨_, ⟨b, hb, rfl⟩, _, ⟨_, ⟨c, hc, rfl⟩, _, ⟨d, hd, rfl⟩, rfl⟩, rfl⟩, rfl⟩, rfl⟩, rfl⟩
  · exact Or.inl ⟨c, printable, quote, backslash, rfl⟩
  · exact Or.inr (Or.inl ⟨c, hc, rfl⟩)
  · exact Or.inr (Or.inr ⟨a, ha, b, hb, c, hc, d, hd, rfl⟩)

theorem codeUnits_plain {c : Char} (printable : 0x20 ≤ c.toNat) (quote : c ≠ '"')
    (backslash : c ≠ '\\') (rest : List Char) :
    codeUnits (c :: rest) = (codeUnits rest).map (.char c :: ·) := by
  rw [codeUnits, if_neg]
  · simp only [backslash, quote, false_or]
    omega
  · rintro _ _ _ _ _ rfl
    exact absurd rfl backslash
  · rintro _ _ rfl
    exact absurd rfl backslash

theorem exists_escaped?_eq {c : Char} (h : c ∈ "\"\\/bfnrt".toList) :
    ∃ d, escaped? c = some d ∧ c ≠ 'u' := by
  have all : "\"\\/bfnrt".toList.all (fun c => (escaped? c).isSome && c != 'u') = true := by decide
  have found := List.all_eq_true.mp all c h
  rw [Bool.and_eq_true, Option.isSome_iff_exists, bne_iff_ne] at found
  obtain ⟨⟨d, hd⟩, other⟩ := found
  exact ⟨d, hd, other⟩

theorem exists_hexDigit?_eq {c : Char} (h : c ∈ hexChars) : ∃ n, hexDigit? c = some n := by
  have all : hexChars.all (fun c => (hexDigit? c).isSome) = true := by decide
  exact Option.isSome_iff_exists.mp (List.all_eq_true.mp all c h)

theorem codeUnits_escaped {c d : Char} (h : escaped? c = some d) (other : c ≠ 'u')
    (rest : List Char) :
    codeUnits ('\\' :: c :: rest) = (codeUnits rest).map (.char d :: ·) := by
  rw [codeUnits, h]
  · cases codeUnits rest <;> rfl
  · intro _ _ _ _ _ h' _
    exact other h'

theorem codeUnits_hex {a b c d : Char} {n : ℕ} (h : hexValue? a b c d = some n)
    (rest : List Char) :
    codeUnits ('\\' :: 'u' :: a :: b :: c :: d :: rest) =
      (codeUnits rest).map (.ofNat n :: ·) := by
  rw [codeUnits, h]
  cases codeUnits rest <;> rfl

/-- The body of a string is well formed. -/
theorem isBody_of_mem_body (h : word ∈ body) : isBody word = true := by
  refine of_mem_kstar (P := fun word => isBody word = true) rfl (fun part hpart rest hrest => ?_) h
  obtain ⟨units, hunits⟩ := Option.isSome_iff_exists.mp hrest
  rcases mem_part hpart with ⟨c, printable, quote, backslash, rfl⟩ | ⟨c, hc, rfl⟩ |
    ⟨a, ha, b, hb, c, hc, d, hd, rfl⟩
  · rw [isBody, List.singleton_append, codeUnits_plain printable quote backslash, hunits]
    rfl
  · obtain ⟨d, hd, other⟩ := exists_escaped?_eq hc
    change (codeUnits ('\\' :: c :: rest)).isSome = true
    rw [codeUnits_escaped hd other, hunits]
    rfl
  · obtain ⟨na, ha⟩ := exists_hexDigit?_eq ha
    obtain ⟨nb, hb⟩ := exists_hexDigit?_eq hb
    obtain ⟨nc, hc⟩ := exists_hexDigit?_eq hc
    obtain ⟨nd, hd⟩ := exists_hexDigit?_eq hd
    change (codeUnits ('\\' :: 'u' :: a :: b :: c :: d :: rest)).isSome = true
    rw [codeUnits_hex (by rw [hexValue?, ha, hb, hc, hd]; rfl), hunits]
    rfl

theorem mem_one_add {l : Language Char} (h : word ∈ 1 + l) : word = [] ∨ word ∈ l := h

/-- Digits end where a character follows that is none. -/
theorem span_digits {digits : List Char} (all : digits.all Char.isDigit = true)
    (ends : rest.takeWhile Char.isDigit = []) :
    (digits ++ rest).takeWhile Char.isDigit = digits ∧
      (digits ++ rest).dropWhile Char.isDigit = rest := by
  rw [List.all_eq_true] at all
  rw [List.takeWhile_append_of_pos all, List.dropWhile_append_of_pos all, ends, List.append_nil]
  refine ⟨rfl, ?_⟩
  have split := List.takeWhile_append_dropWhile (p := Char.isDigit) (l := rest)
  rwa [ends, List.nil_append] at split

theorem isDigits_of_mem_run (h : word ∈ run) : isDigits word = true := by
  obtain ⟨nonempty, all⟩ := NotationLanguage.mem_run.mp h
  rw [isDigits, all, Bool.and_true, Bool.not_eq_true', List.isEmpty_eq_false_iff]
  exact nonempty

theorem isWhole_of_mem_whole (h : word ∈ whole) :
    isWhole word = true ∧ word.all Char.isDigit = true := by
  rcases h with ⟨_, rfl, rfl⟩ | ⟨_, ⟨c, hc, rfl⟩, rest, hrest, rfl⟩
  · decide
  · have leading : digitChars.tail.all (fun c => c != '0' && c.isDigit) = true := by decide
    have first := List.all_eq_true.mp leading c hc
    rw [Bool.and_eq_true, bne_iff_ne] at first
    have all : (c :: rest).all Char.isDigit = true := by
      rw [List.all_cons, first.2, Bool.true_and]
      exact NotationLanguage.mem_digit_kstar.mp hrest
    refine ⟨?_, all⟩
    change isWhole (c :: rest) = true
    rw [isWhole, all, Bool.and_true, bne_iff_ne]
    · exact first.1
    · intro h _
      exact first.1 h

theorem ne_cons_of_all {digits : List Char} (all : digits.all Char.isDigit = true) {c : Char}
    (other : c.isDigit = false) (rest : List Char) : digits ≠ c :: rest := by
  rintro rfl
  rw [List.all_cons, other, Bool.false_and] at all
  cases all

/-- An exponent begins with its letter. -/
theorem isExponent_of_mem (h : word ∈ 1 + exponent) :
    isExponent word = true ∧ word.takeWhile Char.isDigit = [] ∧ ∀ rest, word ≠ '.' :: rest := by
  rcases mem_one_add h with rfl | ⟨_, ⟨e, he, rfl⟩, _, ⟨sign, hsign, digits, hdigits, rfl⟩, rfl⟩
  · exact ⟨rfl, rfl, fun _ => (List.cons_ne_nil _ _).symm⟩
  have letter : e = 'e' ∨ e = 'E' := by simpa using he
  have power : isExponent (e :: (sign ++ digits)) = true := by
    have all := (NotationLanguage.mem_run.mp hdigits).2
    have signs (c : Char) (hc : c ∈ ['+', '-']) : c = '+' ∨ c = '-' := by simpa using hc
    have isLetter : (e == 'e' || e == 'E') = true := by simpa using letter
    rcases mem_one_add hsign with rfl | ⟨c, hc, rfl⟩
    · rw [List.nil_append, isExponent, isLetter, Bool.true_and]
      · exact isDigits_of_mem_run hdigits
      · exact ne_cons_of_all all (by decide)
      · exact ne_cons_of_all all (by decide)
    · rw [List.singleton_append]
      rcases signs c hc with rfl | rfl <;>
        rw [isExponent, isLetter, Bool.true_and, isDigits_of_mem_run hdigits]
  refine ⟨power, ?_, ?_⟩
  · rcases letter with rfl | rfl <;> rfl
  · rintro rest h
    rcases letter with rfl | rfl <;> exact absurd (List.cons.inj h).1 (by decide)

/-- A fraction begins with its point. -/
theorem isFraction_of_mem (h : word ∈ (1 + fraction) * (1 + exponent)) :
    isFraction word = true ∧ word.takeWhile Char.isDigit = [] := by
  obtain ⟨front, hfront, back, hback, rfl⟩ := h
  obtain ⟨exponent, ends, notPoint⟩ := isExponent_of_mem hback
  rcases mem_one_add hfront with rfl | ⟨_, ⟨_, rfl, rfl⟩, digits, hdigits, rfl⟩
  · change isFraction back = true ∧ back.takeWhile Char.isDigit = []
    rw [isFraction]
    · exact ⟨exponent, ends⟩
    · exact notPoint
  · obtain ⟨taken, left⟩ := span_digits (NotationLanguage.mem_run.mp hdigits).2 ends
    refine ⟨?_, rfl⟩
    change (isDigits ((digits ++ back).takeWhile Char.isDigit) &&
      isExponent ((digits ++ back).dropWhile Char.isDigit)) = true
    rw [taken, left, isDigits_of_mem_run hdigits, exponent]
    rfl

/-- A number is its sign, its whole part and what follows the digits of it. -/
theorem isNumber_of_mem_number (h : word ∈ number) : isNumber word = true := by
  obtain ⟨sign, hsign, _, ⟨digits, hdigits, rest, hrest, rfl⟩, rfl⟩ := h
  obtain ⟨whole, all⟩ := isWhole_of_mem_whole hdigits
  obtain ⟨fraction, ends⟩ := isFraction_of_mem hrest
  obtain ⟨taken, left⟩ := span_digits all ends
  have unsigned : isUnsigned (digits ++ rest) = true := by
    rw [isUnsigned, taken, left, whole, fraction]
    rfl
  rcases mem_one_add hsign with rfl | ⟨_, rfl, rfl⟩
  · change isNumber (digits ++ rest) = true
    rw [isNumber]
    · exact unsigned
    · -- Without a sign the first character is a digit.
      rintro _ h
      cases digits with
      | nil => cases whole
      | cons c digits =>
          obtain rfl : c = '-' := (List.cons.inj h).1
          exact ne_cons_of_all all (by decide) digits rfl
  · exact unsigned

/-- Sequences of the characters that words are made of. -/
def words : Language Char := (one (isWordChar · = true))∗

theorem one_le_words {p : Char → Prop} (h : ∀ c, p c → isWordChar c = true) : one p ≤ words := by
  refine le_trans ?_ le_kstar
  rintro _ ⟨c, hc, rfl⟩
  exact ⟨c, h c hc, rfl⟩

/-- The characters of a number are those of words. -/
theorem number_le_words : number ≤ words := by
  have among {chars : List Char} (h : chars.all isWordChar = true) : one (· ∈ chars) ≤ words :=
    one_le_words (List.all_eq_true.mp h)
  have only {c : Char} (h : isWordChar c = true) : one (· = c) ≤ words :=
    one_le_words (by rintro _ rfl; exact h)
  have append {l m : Language Char} (hl : l ≤ words) (hm : m ≤ words) : l * m ≤ words :=
    (mul_le_mul' hl hm).trans_eq (kstar_mul_kstar _)
  have maybe {l : Language Char} (hl : l ≤ words) : 1 + l ≤ words := add_le one_le_kstar hl
  have oneDigit : digit ≤ words := among (show digitChars.all isWordChar = true by decide)
  have digits : digit∗ ≤ words := (kstar_mono oneDigit).trans_eq (kstar_idem _)
  have wholes : whole ≤ words := add_le (only (by decide)) (append (among (by decide)) digits)
  have fractions : fraction ≤ words := append (only (by decide)) (append oneDigit digits)
  have exponents : exponent ≤ words :=
    append (among (by decide)) (append (maybe (among (by decide))) (append oneDigit digits))
  exact append (maybe (only (by decide)))
    (append wholes (append (maybe fractions) (maybe exponents)))

theorem all_isWordChar_of_mem_number (h : word ∈ number) : word.all isWordChar = true := by
  refine of_mem_kstar (P := fun word => word.all isWordChar = true) rfl ?_ (number_le_words h)
  rintro _ ⟨c, hc, rfl⟩ rest all
  rw [List.singleton_append, List.all_cons, hc, all]
  rfl

/-- The first digits of a number that is not zero are a whole part. -/
theorem mem_whole_of_digits_eq {d : ℕ} (hd : d ≠ 0) {front back : List Char}
    (split : Decimal.digits d = front ++ back) (nonempty : front ≠ []) : front ∈ whole := by
  have digits := Decimal.forall_isDigit_digits d
  rw [split, List.forall_mem_append] at digits
  cases front with
  | nil => exact absurd rfl nonempty
  | cons first rest =>
      have notZero : first ≠ '0' := by
        rintro rfl
        exact Decimal.digits_ne_zero_cons hd split
      obtain ⟨digit, others⟩ := List.forall_mem_cons.mp digits.1
      have among := (NotationLanguage.isDigit_iff_mem_digitChars first).mp digit
      exact .inr ⟨[first], ⟨first, (List.mem_cons.mp among).resolve_left notZero, rfl⟩, rest,
        NotationLanguage.mem_digit_kstar.mpr (List.all_eq_true.mpr others), rfl⟩

/-- A natural number is written as a whole part. -/
theorem digits_mem_whole (n : ℕ) : Decimal.digits n ∈ whole := by
  by_cases zero : n = 0
  · rw [zero]
    exact .inl ⟨'0', rfl, rfl⟩
  · exact mem_whole_of_digits_eq zero (List.append_nil _).symm Nat.toDigits_ne_nil

theorem digits_mem_number (n : ℕ) : Decimal.digits n ∈ number :=
  ⟨[], Or.inl rfl, _, ⟨_, digits_mem_whole n, [], ⟨[], Or.inl rfl, [], Or.inl rfl, rfl⟩, rfl⟩,
    List.append_nil _⟩

end JsonLanguage

namespace Json

open JsonLanguage

section Integers

theorem integer?_digits (n : ℕ) : integer? (Decimal.digits n) = some (n : ℤ) := by
  obtain ⟨isWhole, all⟩ := isWhole_of_mem_whole (digits_mem_whole n)
  rw [integer?, if_pos isWhole, Decimal.value_digits]
  exact ne_cons_of_all all (by decide)

theorem integer?_neg_digits (n : ℕ) :
    integer? ('-' :: Decimal.digits (n + 1)) = some (Int.negSucc n) := by
  have isWhole := (isWhole_of_mem_whole (digits_mem_whole (n + 1))).1
  have notZero : Decimal.digits (n + 1) ≠ ['0'] := by
    intro zero
    have value := Decimal.value_digits (n + 1)
    rw [zero] at value
    cases value
  rw [integer?, isWhole, Bool.true_and, if_pos (bne_iff_ne.mpr notZero), Decimal.value_digits]
  rfl

theorem word32?_digits (w : UInt32) : word32? (Decimal.digits w.toNat) = some w := by
  have fits : (0 : ℤ) ≤ w.toNat ∧ (w.toNat : ℤ) < UInt32.size :=
    ⟨Int.natCast_nonneg _, by exact_mod_cast w.toNat_lt⟩
  rw [word32?, integer?_digits, Option.bind_eq_bind, Option.bind_some, if_pos fits,
    Int.toNat_natCast, UInt32.ofNat_toNat]

theorem word64?_digits (w : UInt64) : word64? (Decimal.digits w.toNat) = some w := by
  have fits : (0 : ℤ) ≤ w.toNat ∧ (w.toNat : ℤ) < UInt64.size :=
    ⟨Int.natCast_nonneg _, by exact_mod_cast w.toNat_lt⟩
  rw [word64?, integer?_digits, Option.bind_eq_bind, Option.bind_some, if_pos fits,
    Int.toNat_natCast, UInt64.ofNat_toNat]

theorem toList_signedText_negSucc (n : ℕ) :
    (Decimal.signedText (.negSucc n)).toList = '-' :: Decimal.digits (n + 1) := by
  have minus : "-".toList = ['-'] := rfl
  simp only [Decimal.signedText, Decimal.text, String.toList_append, String.toList_ofList, minus,
    List.singleton_append]

theorem integer?_signedText (i : ℤ) : integer? (Decimal.signedText i).toList = some i := by
  cases i with
  | ofNat n => rw [Decimal.signedText, Decimal.text, String.toList_ofList, integer?_digits]; rfl
  | negSucc n =>
      rw [toList_signedText_negSucc]
      exact integer?_neg_digits n

theorem int64?_signedText (i : Int64) :
    int64? (Decimal.signedText i.toInt).toList = some i := by
  have fits : Int64.minValue.toInt ≤ i.toInt ∧ i.toInt ≤ Int64.maxValue.toInt :=
    ⟨Int64.minValue_le_toInt i, Int64.toInt_le i⟩
  rw [int64?, integer?_signedText, Option.bind_eq_bind, Option.bind_some, if_pos fits,
    Int64.ofInt_toInt]

end Integers

section Plain

/-- Whether a character of a string stands for itself. -/
def isPlain (c : Char) : Bool := 0x20 ≤ c.toNat && c != '"' && c != '\\'

variable {text : List Char}

theorem isPlain_iff {c : Char} :
    isPlain c = true ↔ 0x20 ≤ c.toNat ∧ c ≠ '"' ∧ c ≠ '\\' := by
  simp only [isPlain, Bool.and_eq_true, decide_eq_true_eq, bne_iff_ne, and_assoc]

theorem escape_of_isPlain {c : Char} (h : isPlain c = true) : escape c = [c] := by
  obtain ⟨printable, quote, backslash⟩ := isPlain_iff.mp h
  unfold escape
  split
  · exact absurd rfl quote
  · exact absurd rfl backslash
  all_goals first
    | exact absurd printable (by decide)
    | exact if_neg (by omega)

/-- Text without special characters is written as it is. -/
theorem flatMap_escape_of_isPlain (h : text.all isPlain = true) :
    text.flatMap escape = text := by
  induction text with
  | nil => rfl
  | cons c text ih =>
      rw [List.all_cons, Bool.and_eq_true] at h
      rw [List.flatMap_cons, escape_of_isPlain h.1, ih h.2, List.singleton_append]

theorem unescape_of_isPlain (h : text.all isPlain = true) : unescape text = some text := by
  have units : codeUnits text = some (text.map .char) := by
    induction text with
    | nil => rfl
    | cons c text ih =>
        rw [List.all_cons, Bool.and_eq_true, isPlain_iff] at h
        rw [codeUnits_plain h.1.1 h.1.2.1 h.1.2.2, ih h.2, Option.map_some, List.map_cons]
  have join : CodeUnit.join (text.map .char) = some text := by
    clear units h
    induction text with
    | nil => rfl
    | cons c text ih => rw [List.map_cons, CodeUnit.join, ih, Option.map_some]
  rw [unescape, units, Option.bind_some, join]

theorem mem_body_of_isPlain (h : text.all isPlain = true) : text ∈ body := by
  refine Language.mem_kstar.mpr ⟨text.map fun c => [c], ?_, ?_⟩
  · rw [← List.flatMap_def, List.flatMap_singleton']
  · rw [List.forall_mem_map]
    intro c hc
    exact Or.inl ⟨c, isPlain_iff.mp (List.all_eq_true.mp h c hc), rfl⟩

theorem flatMap_escape_mem_body (h : text.all isPlain = true) : text.flatMap escape ∈ body := by
  rw [flatMap_escape_of_isPlain h]
  exact mem_body_of_isPlain h

/-- The text of an integer has no special characters. -/
theorem all_isPlain_signedText (i : ℤ) :
    (Decimal.signedText i).toList.all isPlain = true := by
  have digits (n : ℕ) : (Decimal.digits n).all isPlain = true := by
    rw [List.all_eq_true]
    intro c hc
    have chars : NotationLanguage.digitChars.all isPlain = true := by decide
    exact List.all_eq_true.mp chars c ((NotationLanguage.isDigit_iff_mem_digitChars c).mp
      (Decimal.forall_isDigit_digits n c hc))
  cases i with
  | ofNat n =>
      rw [Decimal.signedText, Decimal.text, String.toList_ofList]
      exact digits n
  | negSucc n =>
      rw [toList_signedText_negSucc, List.all_cons]
      exact digits (n + 1)

end Plain

end Json

end DiceSampling
