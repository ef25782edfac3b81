/-
# The lines of a histogram

Numbers are written without line breaks and without bar characters.  So a histogram with a
title of one line splits into the lines that were written, and the bar characters of a row
all stand in its bar.
-/

import DiceSampling.Proofs.Bars

namespace DiceSampling

/-- Whether a character is one that numbers are written with. -/
def isNumeral (c : Char) : Bool := c.isDigit || ['-', '.', 'N', 'a', 'i', 'n', 'f'].contains c

/-- A text with nothing but characters of numbers. -/
def Numeric (text : String) : Prop := ∀ c ∈ text.toList, isNumeral c = true

namespace Numeric

theorem append {first second : String} (h : Numeric first) (h' : Numeric second) :
    Numeric (first ++ second) := by
  rw [Numeric, String.toList_append, List.forall_mem_append]
  exact ⟨h, h'⟩

theorem not_mem {text : String} {c : Char} (h : Numeric text) (other : isNumeral c = false) :
    c ∉ text.toList := fun mem => Bool.false_ne_true (other.symm.trans (h c mem))

theorem of_digits {digits : List Char} (h : ∀ c ∈ digits, c.isDigit = true) :
    Numeric (String.ofList digits) := by
  rw [Numeric, String.toList_ofList]
  exact fun c mem => Bool.or_eq_true_iff.mpr (.inl (h c mem))

theorem of_all {text : String} (h : text.toList.all isNumeral = true) : Numeric text :=
  List.all_eq_true.mp h

theorem text (n : ℕ) : Numeric (Decimal.text n) := of_digits fun _ => Decimal.isDigit_of_mem_digits

theorem signedText (i : ℤ) : Numeric (Decimal.signedText i) := by
  cases i with
  | ofNat n => exact text n
  | negSucc n => exact (of_all rfl).append (text (n + 1))

theorem sign (negative : Bool) : Numeric (Binary64.sign negative) := by
  cases negative
  · exact of_all rfl
  · exact of_all rfl

theorem pointed (places units : ℕ) : Numeric (Binary64.pointed places units) := by
  unfold Binary64.pointed
  dsimp only
  split_ifs
  · exact text _
  · refine ((text _).append (of_all rfl)).append (of_digits ?_)
    rw [Decimal.paddedDigits, List.forall_mem_append]
    exact ⟨fun c mem => (List.eq_of_mem_replicate mem).symm ▸ by decide,
      fun c => Decimal.isDigit_of_mem_digits⟩

theorem fixedText (places : ℕ) (x : Float) : Numeric (Binary64.fixedText places x) := by
  unfold Binary64.fixedText
  split
  · exact of_all rfl
  · exact (sign _).append (of_all rfl)
  · exact (sign _).append (pointed _ _)

end Numeric

namespace Histogram

theorem toList_padded (width : ℕ) (text : String) :
    (padded width text).toList = List.replicate (width - text.length) ' ' ++ text.toList := by
  rw [padded, String.toList_append, String.toList_ofList]

/-- Padding adds no characters but blanks. -/
theorem not_mem_padded {width : ℕ} {text : String} {c : Char} (absent : c ∉ text.toList)
    (blank : c ≠ ' ') : c ∉ (padded width text).toList := by
  rw [toList_padded, List.mem_append, not_or]
  exact ⟨fun mem => blank (List.eq_of_mem_replicate mem), absent⟩

/-- What stands in a row between its label and its bar. -/
def Row.percentage (row : Row) : String :=
  " " ++ padded 6 (Binary64.fixedText 2 (row.share * 100.0)) ++ "% "

theorem Row.not_mem_percentage (row : Row) {c : Char} (other : isNumeral c = false)
    (blank : c ≠ ' ') (percent : c ≠ '%') : c ∉ row.percentage.toList := by
  have number : c ∉ (padded 6 (Binary64.fixedText 2 (row.share * 100.0))).toList :=
    not_mem_padded ((Numeric.fixedText _ _).not_mem other) blank
  simp [percentage, number, blank, percent]

theorem Row.toList_line (row : Row) (width : ℕ) :
    (row.line width).toList = (padded width row.label).toList ++ row.percentage.toList ++
      List.replicate row.bar '#' := by
  simp [line, percentage]

theorem Row.lineBreak_not_mem_line (row : Row) (width : ℕ) : '\n' ∉ (row.line width).toList := by
  have label : '\n' ∉ (padded width row.label).toList :=
    not_mem_padded ((Numeric.signedText _).not_mem rfl) (by decide)
  have percentage : '\n' ∉ row.percentage.toList :=
    row.not_mem_percentage rfl (by decide) (by decide)
  simp [toList_line, label, percentage]

theorem Row.barCharacter_not_mem_percentage (row : Row) : '#' ∉ row.percentage.toList :=
  row.not_mem_percentage rfl (by decide) (by decide)

theorem lineBreak_not_mem_summaryLine (summary : Summary) :
    '\n' ∉ (summaryLine summary).toList := by
  have number (x : Float) : '\n' ∉ (Binary64.fixedText 2 x).toList :=
    (Numeric.fixedText 2 x).not_mem rfl
  simp [summaryLine, number]

theorem lineBreak_not_mem_header {title : String} (oneLine : '\n' ∉ title.toList)
    (sample : Sample) (expected : Option Summary) :
    ∀ line ∈ header title sample expected, '\n' ∉ line.toList := by
  have draws : '\n' ∉ (Decimal.text sample.len.toNat).toList := (Numeric.text _).not_mem rfl
  simp only [header, List.forall_mem_append, List.forall_mem_map, List.forall_mem_singleton]
  refine ⟨⟨?_, fun summary _ => lineBreak_not_mem_summaryLine summary⟩, fun summary _ => ?_⟩
  · simp [oneLine, draws]
  · simp [lineBreak_not_mem_summaryLine summary]

theorem lineBreak_not_mem_lines {title : String} (oneLine : '\n' ∉ title.toList)
    (sample : Sample) (expected : Option Summary) (width : UInt64) :
    ∀ line ∈ lines title sample expected width, '\n' ∉ line.toList := by
  rw [lines, List.forall_mem_append, List.forall_mem_map]
  exact ⟨lineBreak_not_mem_header oneLine sample expected,
    fun row _ => row.lineBreak_not_mem_line _⟩

/-- Lines that are ended one by one are found again by splitting. -/
theorem splitOn_lineBreak {lines : List String} (h : ∀ line ∈ lines, '\n' ∉ line.toList) :
    (String.join (lines.map (· ++ "\n"))).toList.splitOn '\n' =
      lines.map String.toList ++ [[]] := by
  rw [String.toList_join, List.flatMap_map]
  induction lines with
  | nil => simp
  | cons line lines ih =>
      obtain ⟨here, later⟩ := List.forall_mem_cons.mp h
      have ended : (line ++ "\n").toList = line.toList ++ ['\n'] := String.toList_append
      rw [List.flatMap_cons, ended, List.append_assoc, List.singleton_append,
        List.splitOn_append_cons_self_of_not_mem here, ih later]
      rfl

/-- The labels fit, and one of them needs all the room. -/
theorem labelWidth_spec (rows : List Row) :
    (∀ row ∈ rows, row.label.length ≤ labelWidth rows) ∧
      (rows = [] ∨ ∃ row ∈ rows, row.label.length = labelWidth rows) := by
  have widths : labelWidth rows = (rows.map fun row => row.label.length).foldl max 0 := by
    rw [labelWidth, List.foldl_map]
  obtain ⟨⟨-, all⟩, attained⟩ := foldl_max_spec (rows.map fun row => row.label.length) 0
  rw [← widths] at all attained
  refine ⟨List.forall_mem_map.mp all, ?_⟩
  rcases attained with zero | attained
  · cases rows with
    | nil => exact .inl rfl
    | cons row rows =>
        have fits := List.forall_mem_map.mp all row List.mem_cons_self
        exact .inr ⟨row, List.mem_cons_self, by omega⟩
  · exact .inr (List.mem_map.mp attained)

/-- Under a title of one line, and with a width of up to 53 bits, every sample whatever its
tallies and its length gives the lines of the header and then one row for every total, in
ascending order. The labels are aligned on the right to the longest of them. No bar is longer
than the width, a larger tally never has a shorter bar, and equal tallies have equal bars. The
largest tallies have bars of the full width if anything was counted, and else there are no
bars. -/
theorem text_shape {title : String} (oneLine : '\n' ∉ title.toList) (sample : Sample)
    (expected : Option Summary) {width : UInt64} (small : width.toNat ≤ 2 ^ 53) :
    let rows := rows sample width
    let room := labelWidth rows
    (text title sample expected width).toList.splitOn '\n' =
      (header title sample expected ++ rows.map (·.line room)).map String.toList ++ [[]] ∧
    (rows.map Row.total = sample.totals ∧ sample.totals.Pairwise (· < ·) ∧
      ∀ total, total ∈ sample.totals ↔ total ∈ sample.tallies) ∧
    ((∀ row ∈ rows, (row.line room).toList =
        List.replicate (room - row.label.length) ' ' ++ row.label.toList ++
          row.percentage.toList ++ List.replicate row.bar '#' ∧
        row.label = Decimal.signedText row.total.toInt ∧ row.label.length ≤ room ∧
        '#' ∉ row.percentage.toList) ∧
      (rows = [] ∨ ∃ row ∈ rows, row.label.length = room)) ∧
    (∀ row ∈ rows, row.bar ≤ width.toNat) ∧
    (∀ row ∈ rows, ∀ other ∈ rows, sample.count row.total ≤ sample.count other.total →
      row.bar ≤ other.bar) ∧
    (∀ row ∈ rows, ∀ other ∈ rows, sample.count row.total = sample.count other.total →
      row.bar = other.bar) ∧
    (sample.len ≠ 0 → (∃ total ∈ sample.totals, sample.count total ≠ 0) →
      ∀ row ∈ rows, (∀ total ∈ sample.totals, sample.count total ≤ sample.count row.total) →
        row.bar = width.toNat) ∧
    (¬ (sample.len ≠ 0 ∧ ∃ total ∈ sample.totals, sample.count total ≠ 0) →
      ∀ row ∈ rows, row.bar = 0) := by
  have ascending := sample.pairwise_frequencies
  rw [sample.map_fst_frequencies] at ascending
  obtain ⟨fits, attained⟩ := labelWidth_spec (rows sample width)
  refine ⟨splitOn_lineBreak (lineBreak_not_mem_lines oneLine sample expected width),
    ⟨map_total_rows sample width, ascending, fun total => Std.ExtTreeMap.mem_keys⟩,
    ⟨fun row mem => ⟨?_, rfl, fits row mem, row.barCharacter_not_mem_percentage⟩, attained⟩,
    fun row mem => bar_le_width small mem,
    fun row mem other mem' le => bar_le_bar small mem mem' le,
    fun row mem other mem' same => ?_,
    fun drawn counted row mem largest => bar_eq_width small mem drawn counted largest,
    fun nothing row mem => bar_eq_zero small mem nothing⟩
  · rw [Row.toList_line, toList_padded]
  · exact le_antisymm (bar_le_bar small mem mem' (UInt64.le_of_eq same))
      (bar_le_bar small mem' mem (UInt64.le_of_eq same.symm))

/-- Four rolls of a coin, three of them alike, whose length is not the sum of the tallies. -/
theorem text_shape_of_inconsistent_sample :
    let sample : Sample := { Sample.empty.recordAll [1, 2, 2, 2] with len := 7 }
    '\n' ∉ "1d2".toList ∧ (10 : UInt64).toNat ≤ 2 ^ 53 ∧
    (rows sample 10).map Row.total = [1, 2] ∧
    (∀ row ∈ rows sample 10, row.total = 2 → row.bar = 10) ∧
    ∀ row ∈ rows sample 10, row.bar ≤ 10 := by
  have oneLine : '\n' ∉ "1d2".toList := by decide
  have small : (10 : UInt64).toNat ≤ 2 ^ 53 := by decide
  obtain ⟨-, ⟨totals, -⟩, -, bound, -, -, full, -⟩ := text_shape oneLine
    { Sample.empty.recordAll [1, 2, 2, 2] with len := 7 } none small
  refine ⟨oneLine, small, totals, fun row mem two => ?_, bound⟩
  refine full (by decide) ⟨2, by decide, by decide⟩ row mem fun total among => ?_
  rw [two, UInt64.le_iff_toNat_le]
  obtain rfl | rfl : total = 1 ∨ total = 2 := by
    have listed : total ∈ [1, 2] := among
    simpa using listed
  · decide
  · exact le_rfl

end Histogram

end DiceSampling
