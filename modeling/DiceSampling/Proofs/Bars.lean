/-
# The lengths of bars

A bar is the share of its total over the greatest share, scaled to the width and rounded.
Every step of that is rounded too, but rounding keeps the order, and leaves alone what is a
float already: a quotient of a share by itself is one, and a width of up to 53 bits is exact.
So bars are ordered as their tallies are, and the longest is the width.
-/

import DiceSampling.Histogram
import DiceSampling.Proofs.Binary64.Division
import DiceSampling.Proofs.Binary64.Order
import DiceSampling.Proofs.Binary64.Whole
import DiceSampling.Proofs.Tallies

namespace DiceSampling

open Binary64

/-- A running maximum is not below its start or any element, and is one of them. -/
theorem foldl_max_spec {α : Type} [LinearOrder α] (l : List α) (start : α) :
    (start ≤ l.foldl max start ∧ ∀ a ∈ l, a ≤ l.foldl max start) ∧
      (l.foldl max start = start ∨ l.foldl max start ∈ l) := by
  induction l generalizing start with
  | nil => simp
  | cons a l ih =>
      obtain ⟨⟨least, all⟩, attained⟩ := ih (max start a)
      rw [List.foldl_cons, List.forall_mem_cons, List.mem_cons]
      refine ⟨⟨(le_max_left ..).trans least, (le_max_right ..).trans least, all⟩, ?_⟩
      rcases attained with h | h
      · rcases max_choice start a with left | right
        · exact .inl (h.trans left)
        · exact .inr (.inl (h.trans right))
      · exact .inr (.inr h)

namespace Sample

variable {sample : Sample} {total other : Int64}

/-- The share of a total among the draws, as it is rounded; zero if there were none. -/
def share (sample : Sample) (total : Int64) : ℚ :=
  rounded (rounded (sample.count total).toNat / rounded sample.len.toNat)

theorem share_of_len_eq_zero (empty : sample.len = 0) : sample.share total = 0 := by
  rw [share, empty, UInt64.toNat_zero, Nat.cast_zero, rounded_zero, div_zero, rounded_zero]

theorem share_of_count_eq_zero (absent : sample.count total = 0) : sample.share total = 0 := by
  rw [share, absent, UInt64.toNat_zero, Nat.cast_zero, rounded_zero, zero_div, rounded_zero]

theorem share_nonneg : 0 ≤ sample.share total :=
  rounded_nonneg (div_nonneg (rounded_toNat_nonneg _) (rounded_toNat_nonneg _))

theorem share_le : sample.share total ≤ 2 ^ 64 := by
  by_cases empty : sample.len = 0
  · rw [share_of_len_eq_zero empty]
    positivity
  · have least := one_le_rounded_toNat empty
    refine rounded_le (representable_two_pow 64) ?_
    rw [div_le_iff₀ (by linarith)]
    exact (rounded_toNat_le _).trans (le_mul_of_one_le_right (by positivity) least)

/-- A total with a larger tally has no smaller share. -/
theorem share_le_share (le : sample.count total ≤ sample.count other) :
    sample.share total ≤ sample.share other := by
  apply rounded_mono
  gcongr
  · exact rounded_toNat_nonneg _
  · apply rounded_mono
    exact_mod_cast UInt64.le_iff_toNat_le.mp le

/-- Shares do not vanish. -/
theorem share_pos_iff : 0 < sample.share total ↔ sample.len ≠ 0 ∧ sample.count total ≠ 0 := by
  constructor
  · intro positive
    exact ⟨fun empty => positive.ne' (share_of_len_eq_zero empty),
      fun absent => positive.ne' (share_of_count_eq_zero absent)⟩
  · rintro ⟨drawn, counted⟩
    have small : (2 : ℚ) ^ (-64 : ℤ) ≤ sample.share total := by
      refine le_rounded (representable_zpow (by norm_num)) ?_
      have length := one_le_rounded_toNat drawn
      rw [le_div_iff₀ (by linarith)]
      calc
        (2 : ℚ) ^ (-64 : ℤ) * rounded sample.len.toNat ≤ 2 ^ (-64 : ℤ) * 2 ^ 64 := by
          gcongr
          exact rounded_toNat_le _
        _ = 1 := by norm_num
        _ ≤ _ := one_le_rounded_toNat counted
    exact lt_of_lt_of_le (by positivity) small

theorem value?_frequency (sample : Sample) (total : Int64) :
    value? (sample.frequency total) = some (sample.share total) := by
  by_cases empty : sample.len = 0
  · rw [frequency, isEmpty, if_pos (decide_eq_true empty), value?_zero,
      share_of_len_eq_zero empty]
  · rw [frequency, isEmpty, if_neg (mt of_decide_eq_true empty)]
    have length := one_le_rounded_toNat empty
    refine value?_div (value?_toFloat_rounded _) (value?_toFloat_rounded _) (by linarith) ?_
    change |sample.share total| < outOfRange
    rw [abs_of_nonneg share_nonneg]
    exact lt_outOfRange_of_le (by norm_num) share_le

/-- The greatest share of all totals, and zero if there are none. -/
def peakShare (sample : Sample) : ℚ := (sample.totals.map sample.share).foldl max 0

theorem share_le_peakShare (mem : total ∈ sample.totals) :
    sample.share total ≤ sample.peakShare :=
  (foldl_max_spec _ _).1.2 _ (List.mem_map_of_mem mem)

/-- A total with the largest tally has the greatest share. -/
theorem share_eq_peakShare (mem : total ∈ sample.totals)
    (largest : ∀ other ∈ sample.totals, sample.count other ≤ sample.count total) :
    sample.share total = sample.peakShare := by
  refine le_antisymm (share_le_peakShare mem) ?_
  rcases (foldl_max_spec (sample.totals.map sample.share) 0).2 with zero | attained
  · exact zero.trans_le share_nonneg
  · obtain ⟨other, among, greatest⟩ := List.mem_map.mp attained
    exact greatest.symm.trans_le (share_le_share (largest other among))

theorem peakShare_pos_iff :
    0 < sample.peakShare ↔ sample.len ≠ 0 ∧ ∃ total ∈ sample.totals, sample.count total ≠ 0 := by
  constructor
  · intro positive
    rcases (foldl_max_spec (sample.totals.map sample.share) 0).2 with zero | attained
    · exact absurd zero positive.ne'
    · obtain ⟨total, mem, greatest⟩ := List.mem_map.mp attained
      obtain ⟨drawn, counted⟩ := share_pos_iff.mp (positive.trans_eq greatest.symm)
      exact ⟨drawn, total, mem, counted⟩
  · rintro ⟨drawn, total, mem, counted⟩
    exact (share_pos_iff.mpr ⟨drawn, counted⟩).trans_le (share_le_peakShare mem)

end Sample

namespace Histogram

/-- The running maximum of floats is that of their numbers. -/
theorem value?_peak {frequencies : List (Int64 × Float)} {share : Int64 × Float → ℚ}
    (h : ∀ entry ∈ frequencies, value? entry.2 = some (share entry)) :
    value? (peak frequencies) = some ((frequencies.map share).foldl max 0) := by
  unfold peak
  generalize hstart : (0.0 : Float) = start
  have value : value? start = some 0 := hstart ▸ value?_zero
  generalize (0 : ℚ) = highest at value ⊢
  clear hstart
  induction frequencies generalizing start highest with
  | nil => exact value
  | cons entry frequencies ih =>
      obtain ⟨here, later⟩ := List.forall_mem_cons.mp h
      refine ih later _ _ ?_
      dsimp only
      split_ifs with less
      · rw [max_eq_right ((lt_iff_of_value? value here).mp less).le, here]
      · rw [max_eq_left (not_lt.mp (mt (lt_iff_of_value? value here).mpr less)), value]

theorem value?_peak_frequencies (sample : Sample) :
    value? (peak sample.frequencies) = some sample.peakShare := by
  have values : ∀ entry ∈ sample.frequencies, value? entry.2 = some (sample.share entry.1) := by
    intro entry mem
    rw [Sample.Counts.snd_eq_frequency mem]
    exact sample.value?_frequency entry.1
  have shares : sample.frequencies.map (fun entry => sample.share entry.1) =
      sample.totals.map sample.share := by
    rw [← sample.map_fst_frequencies, List.map_map]
    rfl
  rw [value?_peak values, shares]
  rfl

/-- The length of a bar, from exact shares. -/
def bar (width : ℕ) (peak share : ℚ) : ℕ := ⌊rounded (rounded (share / peak) * width) + 1 / 2⌋₊

section Bar

variable {width : ℕ} {peak share share' : ℚ}

theorem bar_mono (nonneg : 0 ≤ peak) (le : share ≤ share') :
    bar width peak share ≤ bar width peak share' := by
  apply Nat.floor_mono
  gcongr
  apply rounded_mono
  gcongr
  apply rounded_mono
  gcongr

/-- The greatest share has a bar of the full width. -/
theorem bar_peak (positive : 0 < peak) (small : width ≤ 2 ^ 53) : bar width peak peak = width := by
  rw [bar, div_self positive.ne', rounded_of_representable representable_one, one_mul,
    rounded_of_representable (representable_natCast small), add_comm,
    Nat.floor_add_natCast one_half_pos.le, Nat.floor_eq_zero.mpr one_half_lt_one, zero_add]

theorem bar_le (positive : 0 < peak) (le : share ≤ peak) (small : width ≤ 2 ^ 53) :
    bar width peak share ≤ width :=
  (bar_mono positive.le le).trans_eq (bar_peak positive small)

theorem barLength_of_pos {width : UInt64} {highest frequency : Float}
    (hpeak : value? highest = some peak) (hshare : value? frequency = some share)
    (positive : 0 < peak) (nonneg : 0 ≤ share) (le : share ≤ peak) (small : width.toNat ≤ 2 ^ 53) :
    barLength width highest frequency = bar width.toNat peak share := by
  have above : 0.0 < highest := (lt_iff_of_value? value?_zero hpeak).mpr positive
  have quotient : 0 ≤ rounded (share / peak) := rounded_nonneg (div_nonneg nonneg positive.le)
  have top : rounded (share / peak) ≤ 1 := by
    refine rounded_le representable_one ?_
    exact (div_le_one positive).mpr le
  have scaled : rounded (share / peak) * width.toNat ≤ 2 ^ 53 := by
    have small' : (width.toNat : ℚ) ≤ 2 ^ 53 := by exact_mod_cast small
    exact (mul_le_of_le_one_left (by positivity) top).trans small'
  have value := value?_mul
    (value?_div hshare hpeak positive.ne' (by
      rw [abs_of_nonneg quotient]
      exact lt_outOfRange_of_le (t := 0) (by norm_num) (by simpa using top)))
    (value?_toFloat_of_le small)
    (abs_rounded_lt_outOfRange (by rwa [abs_of_nonneg (by positivity)]))
  rw [barLength, if_pos above, roundToNat_of_value? value (rounded_nonneg (by positivity))]
  apply min_eq_right
  have bound := bar_le positive le small
  exact bound.trans (Nat.le_sub_one_of_lt width.toNat_lt)

end Bar

section Rows

variable {sample : Sample} {width : UInt64} {row other : Row}

/-- There is one row for every total, in ascending order. -/
theorem map_total_rows (sample : Sample) (width : UInt64) :
    (rows sample width).map Row.total = sample.totals := by
  rw [rows, List.map_map]
  exact sample.map_fst_frequencies

theorem total_mem_of_mem_rows (mem : row ∈ rows sample width) : row.total ∈ sample.totals := by
  rw [← map_total_rows sample width]
  exact List.mem_map_of_mem mem

theorem bar_of_mem_rows (small : width.toNat ≤ 2 ^ 53) (mem : row ∈ rows sample width) :
    row.bar = if 0 < sample.peakShare then
      bar width.toNat sample.peakShare (sample.share row.total) else 0 := by
  have among := total_mem_of_mem_rows mem
  obtain ⟨entry, listed, rfl⟩ := List.mem_map.mp mem
  have value : value? entry.2 = some (sample.share entry.1) := by
    rw [Sample.Counts.snd_eq_frequency listed]
    exact sample.value?_frequency entry.1
  have peak := value?_peak_frequencies sample
  split_ifs with positive
  · exact barLength_of_pos peak value positive Sample.share_nonneg
      (Sample.share_le_peakShare among) small
  · have below : ¬ 0.0 < Histogram.peak sample.frequencies :=
      mt (lt_iff_of_value? value?_zero peak).mp positive
    exact if_neg below

variable (small : width.toNat ≤ 2 ^ 53) (mem : row ∈ rows sample width)
include small mem

theorem bar_le_width : row.bar ≤ width.toNat := by
  rw [bar_of_mem_rows small mem]
  split_ifs with positive
  · exact bar_le positive (Sample.share_le_peakShare (total_mem_of_mem_rows mem)) small
  · exact Nat.zero_le _

/-- A larger tally never has a shorter bar. -/
theorem bar_le_bar (mem' : other ∈ rows sample width)
    (le : sample.count row.total ≤ sample.count other.total) : row.bar ≤ other.bar := by
  rw [bar_of_mem_rows small mem, bar_of_mem_rows small mem']
  split_ifs with positive
  · exact bar_mono positive.le (Sample.share_le_share le)
  · exact le_rfl

/-- If anything was counted, the largest tally has a bar of the full width. -/
theorem bar_eq_width (drawn : sample.len ≠ 0)
    (counted : ∃ total ∈ sample.totals, sample.count total ≠ 0)
    (largest : ∀ total ∈ sample.totals, sample.count total ≤ sample.count row.total) :
    row.bar = width.toNat := by
  have positive := Sample.peakShare_pos_iff.mpr ⟨drawn, counted⟩
  rw [bar_of_mem_rows small mem, if_pos positive,
    Sample.share_eq_peakShare (total_mem_of_mem_rows mem) largest, bar_peak positive small]

/-- If nothing was counted, there are no bars. -/
theorem bar_eq_zero
    (nothing : ¬ (sample.len ≠ 0 ∧ ∃ total ∈ sample.totals, sample.count total ≠ 0)) :
    row.bar = 0 := by
  rw [bar_of_mem_rows small mem, if_neg (mt Sample.peakShare_pos_iff.mp nothing)]

end Rows

end Histogram

end DiceSampling
