/-
# The mean and the deviation of a sample

While the magnitudes of all draws add up to no more than `2 ^ 53`, the sum of the draws is
exact in every order of the entries, and the mean is rounded once, by its division.  The
distances from it are rounded too, but none is lost: a draw and the rounded mean are
multiples of `2 ^ -105`, so a distance is zero or not below that, and so far from zero
squares, sums and roots do not vanish either.
-/

import DiceSampling.Proofs.Binary64.SquareRoot
import DiceSampling.Proofs.Summation
import DiceSampling.Proofs.Tallies

namespace DiceSampling

open Binary64

/-- A total that fits into a mantissa becomes the float that denotes it. -/
theorem value?_totalToFloat {total : Int64} (small : total.toInt.natAbs ≤ 2 ^ 53) :
    value? (totalToFloat total) = some (total.toInt : ℚ) := by
  have word : total.toInt.natAbs.toUInt64.toNat = total.toInt.natAbs :=
    UInt64.toNat_ofNat_of_lt' (by simp only [UInt64.size]; omega)
  have magnitude := value?_toFloat_of_le (n := total.toInt.natAbs.toUInt64) (by rwa [word])
  rw [word] at magnitude
  unfold totalToFloat
  dsimp only
  split_ifs with negative
  · have sign : total.toInt < 0 := Int64.lt_iff_toInt_lt.mp negative
    rw [value?_neg magnitude, ← Int.cast_natCast,
      show (total.toInt.natAbs : ℤ) = -total.toInt by omega, Int.cast_neg, neg_neg]
  · have sign : ¬ total.toInt < 0 := fun h => negative (Int64.lt_iff_toInt_lt.mpr h)
    rw [magnitude, ← Int.cast_natCast, show (total.toInt.natAbs : ℤ) = total.toInt by omega]

/-- What an entry adds to the sum of all draws. -/
def weight (entry : Int64 × UInt64) : ℤ := entry.1.toInt * (entry.2.toNat : ℤ)

theorem abs_weight (entry : Int64 × UInt64) :
    |weight entry| = |entry.1.toInt| * (entry.2.toNat : ℤ) := by
  rw [weight, abs_mul, abs_of_nonneg (Int.natCast_nonneg entry.2.toNat)]

/-- Entries whose sums fit into a mantissa. -/
structure Moderate (entries : List (Int64 × UInt64)) : Prop where
  tally_pos : ∀ entry ∈ entries, 0 < entry.2.toNat
  sum_tallies_le : (entries.map fun entry => entry.2.toNat).sum ≤ 2 ^ 53
  sum_magnitudes_le : (entries.map fun entry => |weight entry|).sum ≤ 2 ^ 53

namespace Moderate

variable {entries others : List (Int64 × UInt64)} {entry : Int64 × UInt64}

theorem of_perm (h : Moderate entries) (perm : others.Perm entries) : Moderate others where
  tally_pos entry mem := h.tally_pos entry (perm.mem_iff.mp mem)
  sum_tallies_le := by
    rw [(perm.map _).sum_eq]
    exact h.sum_tallies_le
  sum_magnitudes_le := by
    rw [(perm.map _).sum_eq]
    exact h.sum_magnitudes_le

theorem length_le (h : Moderate entries) : entries.length ≤ 2 ^ 53 := by
  have ones := List.length_le_sum_of_one_le (entries.map fun entry => entry.2.toNat)
    (List.forall_mem_map.mpr h.tally_pos)
  rw [List.length_map] at ones
  exact ones.trans h.sum_tallies_le

theorem abs_sum_le (h : Moderate entries) : |(entries.map weight).sum| ≤ 2 ^ 53 := by
  have triangle := Multiset.abs_sum_le_sum_abs (s := ((entries.map weight : List ℤ) : Multiset ℤ))
  rw [Multiset.sum_coe, Multiset.map_coe, Multiset.sum_coe, List.map_map] at triangle
  exact triangle.trans h.sum_magnitudes_le

section Entry

variable (h : Moderate entries) (mem : entry ∈ entries)
include h mem

theorem tally_le : entry.2.toNat ≤ 2 ^ 53 :=
  (List.le_sum_of_mem (List.mem_map_of_mem mem)).trans h.sum_tallies_le

theorem abs_weight_le : |weight entry| ≤ 2 ^ 53 :=
  (List.single_le_sum (List.forall_mem_map.mpr fun entry _ => abs_nonneg (weight entry)) _
    (List.mem_map_of_mem mem)).trans h.sum_magnitudes_le

theorem abs_toInt_le : |entry.1.toInt| ≤ 2 ^ 53 := by
  have positive := h.tally_pos entry mem
  have small := h.abs_weight_le mem
  rw [abs_weight] at small
  exact (le_mul_of_one_le_right (abs_nonneg _) (by omega)).trans small

theorem value?_total : value? (totalToFloat entry.1) = some (entry.1.toInt : ℚ) :=
  value?_totalToFloat (by
    have small := h.abs_toInt_le mem
    rw [Int.abs_eq_natAbs] at small
    omega)

/-- The product of a total and its tally does not round. -/
theorem value?_weight :
    value? (totalToFloat entry.1 * entry.2.toFloat) = some (weight entry : ℚ) := by
  have small := h.abs_weight_le mem
  have exact : rounded ((entry.1.toInt : ℚ) * entry.2.toNat) = weight entry := by
    rw [← rounded_of_representable (representable_intCast small), weight]
    push_cast
    rfl
  rw [← exact]
  refine value?_mul (h.value?_total mem) (value?_toFloat_of_le (h.tally_le mem))
    (abs_rounded_lt_outOfRange ?_)
  exact_mod_cast small

end Entry

/-- The mean is rounded once. -/
theorem value?_meanOf (h : Moderate entries) {draws : Float} {n : ℕ} (positive : 0 < n)
    (hdraws : value? draws = some (n : ℚ)) :
    value? (Summary.meanOf draws entries) =
      some (rounded (((entries.map weight).sum : ℤ) / n)) := by
  have sum := value?_sum_of_integers (fun entry mem => h.value?_weight mem) h.sum_magnitudes_le
  refine value?_div sum hdraws (by positivity) (abs_rounded_lt_outOfRange ?_)
  have least : (1 : ℚ) ≤ n := by exact_mod_cast positive
  rw [abs_div, Nat.abs_cast, div_le_iff₀ (by positivity)]
  calc
    |(((entries.map weight).sum : ℤ) : ℚ)| ≤ 2 ^ 53 := by exact_mod_cast h.abs_sum_le
    _ ≤ 2 ^ 53 * n := le_mul_of_one_le_right (by positivity) least

end Moderate

/-- Where the mean of moderate entries lies: not above them in magnitude, and on a grid that is
not too fine. -/
structure Central (μ : ℚ) : Prop where
  abs_le : |μ| ≤ 2 ^ 53
  exists_multiple : ∃ k : ℤ, μ = k * 2 ^ (-105 : ℤ)

theorem central_mean {z : ℤ} {n : ℕ} (small : |z| ≤ 2 ^ 53) (positive : 0 < n)
    (few : n ≤ 2 ^ 53) : Central (rounded (z / n)) := by
  have least : (1 : ℚ) ≤ n := by exact_mod_cast positive
  have small' : |(z : ℚ)| ≤ 2 ^ 53 := by exact_mod_cast small
  refine ⟨abs_rounded_le (representable_two_pow 53) ?_, ?_⟩
  · rw [abs_div, Nat.abs_cast, div_le_iff₀ (by positivity)]
    exact small'.trans (le_mul_of_one_le_right (by positivity) least)
  rcases eq_or_ne z 0 with rfl | nonzero
  · exact ⟨0, by simp⟩
  apply exists_rounded_eq_mul
  apply le_gridExponent
  have whole : (1 : ℚ) ≤ |(z : ℚ)| := by exact_mod_cast Int.one_le_abs nonzero
  have few' : (n : ℚ) ≤ 2 ^ 53 := by exact_mod_cast few
  rw [abs_div, Nat.abs_cast, le_div_iff₀ (by positivity)]
  calc
    (2 : ℚ) ^ (-105 + 52 : ℤ) * n ≤ 2 ^ (-105 + 52 : ℤ) * 2 ^ 53 := by gcongr
    _ = 1 := by norm_num
    _ ≤ |(z : ℚ)| := whole

/-- The distance of an entry from the mean, as it is rounded. -/
def distance (μ : ℚ) (entry : Int64 × UInt64) : ℚ := rounded (entry.1.toInt - μ)

/-- What an entry adds to the sum of squares, as it is rounded. -/
def squareTerm (μ : ℚ) (entry : Int64 × UInt64) : ℚ :=
  rounded (entry.2.toNat * rounded (distance μ entry * distance μ entry))

section Term

variable {entry : Int64 × UInt64} {μ : ℚ}

theorem squareTerm_nonneg : 0 ≤ squareTerm μ entry :=
  rounded_nonneg (mul_nonneg (Nat.cast_nonneg _) (rounded_nonneg (mul_self_nonneg _)))

theorem squareTerm_eq_zero (same : (entry.1.toInt : ℚ) = μ) : squareTerm μ entry = 0 := by
  rw [squareTerm, distance, same, sub_self, rounded_zero, mul_zero, rounded_zero, mul_zero,
    rounded_zero]

end Term

namespace Moderate

variable {entries : List (Int64 × UInt64)} {entry : Int64 × UInt64} {μ : ℚ}

section Entry

variable (h : Moderate entries) (mem : entry ∈ entries) (central : Central μ)
include h mem central

theorem abs_distance_le : |distance μ entry| ≤ 2 ^ 54 := by
  have total : |(entry.1.toInt : ℚ)| ≤ 2 ^ 53 := by exact_mod_cast h.abs_toInt_le mem
  have mean := central.abs_le
  have triangle := abs_sub (entry.1.toInt : ℚ) μ
  exact abs_rounded_le (representable_two_pow 54) (by linarith)

theorem square_le : distance μ entry * distance μ entry ≤ 2 ^ 108 := by
  have small := h.abs_distance_le mem central
  rw [← abs_mul_abs_self]
  calc
    |distance μ entry| * |distance μ entry| ≤ 2 ^ 54 * 2 ^ 54 := by gcongr
    _ = 2 ^ 108 := by norm_num

theorem rounded_square_le : rounded (distance μ entry * distance μ entry) ≤ 2 ^ 108 :=
  rounded_le (representable_two_pow 108) (h.square_le mem central)

theorem squareTerm_le : squareTerm μ entry ≤ 2 ^ 161 := by
  have tally : (entry.2.toNat : ℚ) ≤ 2 ^ 53 := by exact_mod_cast h.tally_le mem
  refine rounded_le (representable_two_pow 161) ?_
  calc
    (entry.2.toNat : ℚ) * rounded (distance μ entry * distance μ entry) ≤ 2 ^ 53 * 2 ^ 108 :=
      mul_le_mul tally (h.rounded_square_le mem central) (rounded_nonneg (mul_self_nonneg _))
        (by positivity)
    _ = 2 ^ 161 := by norm_num

/-- A distance that is not zero does not vanish, and neither does its square. -/
theorem le_squareTerm (apart : (entry.1.toInt : ℚ) ≠ μ) : 2 ^ (-210 : ℤ) ≤ squareTerm μ entry := by
  obtain ⟨k, rfl⟩ := central.exists_multiple
  have multiple : (entry.1.toInt : ℚ) - k * 2 ^ (-105 : ℤ) =
      (entry.1.toInt * 2 ^ 105 - k : ℤ) * 2 ^ (-105 : ℤ) := by
    push_cast
    rw [sub_mul, mul_assoc]
    norm_num
  have nonzero : entry.1.toInt * 2 ^ 105 - k ≠ 0 := by
    intro zero
    rw [zero, Int.cast_zero, zero_mul, sub_eq_zero] at multiple
    exact apart multiple
  have far : 2 ^ (-105 : ℤ) ≤ |distance (k * 2 ^ (-105 : ℤ)) entry| := by
    refine le_abs_rounded (representable_zpow (by norm_num)) ?_
    have whole : (1 : ℚ) ≤ |((entry.1.toInt * 2 ^ 105 - k : ℤ) : ℚ)| := by
      exact_mod_cast Int.one_le_abs nonzero
    rw [multiple, abs_mul, abs_of_pos (show (0 : ℚ) < 2 ^ (-105 : ℤ) by positivity)]
    exact le_mul_of_one_le_left (by positivity) whole
  have square : (2 : ℚ) ^ (-210 : ℤ) ≤
      rounded (distance (k * 2 ^ (-105 : ℤ)) entry * distance (k * 2 ^ (-105 : ℤ)) entry) := by
    refine le_rounded (representable_zpow (by norm_num)) ?_
    rw [← abs_mul_abs_self]
    calc
      (2 : ℚ) ^ (-210 : ℤ) = 2 ^ (-105 : ℤ) * 2 ^ (-105 : ℤ) := by norm_num
      _ ≤ _ := by gcongr
  have tally : (1 : ℚ) ≤ entry.2.toNat := by exact_mod_cast h.tally_pos entry mem
  refine le_rounded (representable_zpow (by norm_num)) (square.trans ?_)
  exact le_mul_of_one_le_left (le_trans (by positivity) square) tally

theorem value?_squareTerm {mean : Float} (hmean : value? mean = some μ) :
    value? (entry.2.toFloat * ((totalToFloat entry.1 - mean) * (totalToFloat entry.1 - mean))) =
      some (squareTerm μ entry) := by
  have apart : value? (totalToFloat entry.1 - mean) = some (distance μ entry) :=
    value?_sub (h.value?_total mem) hmean
      (lt_outOfRange_of_le (by norm_num) (h.abs_distance_le mem central))
  have square := value?_mul apart apart (by
    rw [abs_of_nonneg (rounded_nonneg (mul_self_nonneg _))]
    exact lt_outOfRange_of_le (by norm_num) (h.rounded_square_le mem central))
  refine value?_mul (value?_toFloat_of_le (h.tally_le mem)) square ?_
  change |squareTerm μ entry| < outOfRange
  rw [abs_of_nonneg squareTerm_nonneg]
  exact lt_outOfRange_of_le (by norm_num) (h.squareTerm_le mem central)

end Entry

/-- The sum of squares is zero if all totals lie at the mean, and else not too small. -/
theorem exists_value?_squaresAround (h : Moderate entries) (central : Central μ) {mean : Float}
    (hmean : value? mean = some μ) :
    ∃ r, value? (Summary.squaresAround mean entries) = some r ∧ 0 ≤ r ∧ r ≤ 2 ^ 214 ∧
      ((∀ entry ∈ entries, (entry.1.toInt : ℚ) = μ) → r = 0) ∧
      ((∃ entry ∈ entries, (entry.1.toInt : ℚ) ≠ μ) → 2 ^ (-210 : ℤ) ≤ r) := by
  obtain ⟨r, sum, nonneg, upper, all, vanishes⟩ := exists_value?_sum (t := 161) (by norm_num)
    (fun entry mem => h.value?_squareTerm mem central hmean)
    (fun entry mem => ⟨squareTerm_nonneg, h.squareTerm_le mem central⟩) h.length_le
  refine ⟨r, sum, nonneg, upper.trans ?_, fun same => ?_, ?_⟩
  · have length : (entries.length : ℚ) ≤ 2 ^ 53 := by exact_mod_cast h.length_le
    calc
      (entries.length : ℚ) * 2 ^ 161 ≤ 2 ^ 53 * 2 ^ 161 := by gcongr
      _ = 2 ^ 214 := by norm_num
  · exact vanishes fun entry mem => squareTerm_eq_zero (same entry mem)
  · rintro ⟨entry, mem, apart⟩
    exact (h.le_squareTerm mem central apart).trans (all entry mem)

section Deviation

variable {draws : Float} {n : ℕ}

theorem value?_sub_one (positive : 0 < n) (few : n ≤ 2 ^ 53)
    (hdraws : value? draws = some (n : ℚ)) :
    value? (draws - 1.0) = some ((n - 1 : ℕ) : ℚ) := by
  have exact : rounded ((n : ℚ) - 1) = ((n - 1 : ℕ) : ℚ) := by
    rw [← Nat.cast_one, ← Nat.cast_sub positive]
    exact rounded_of_representable (representable_natCast (by omega))
  rw [← exact]
  refine value?_sub hdraws value?_one ?_
  rw [exact, Nat.abs_cast]
  exact lt_outOfRange_of_le (t := 53) (by norm_num) (by exact_mod_cast (by omega))

variable (h : Moderate entries) (positive : 0 < n) (few : n ≤ 2 ^ 53)
  (hdraws : value? draws = some (n : ℚ))
include h positive few hdraws

/-- A single draw has no deviation. -/
theorem ofFloat_stdDev_of_one (one : n = 1)
    (same : ∀ entry ∈ entries,
      (entry.1.toInt : ℚ) = rounded (((entries.map weight).sum : ℤ) / n)) :
    ofFloat (Summary.ofEntries draws entries).stdDev = nan := by
  obtain ⟨r, squares, -, -, vanishes, -⟩ := h.exists_value?_squaresAround
    (central_mean h.abs_sum_le positive few) (h.value?_meanOf positive hdraws)
  rw [vanishes same] at squares
  have divisor := value?_sub_one positive few hdraws
  rw [one, Nat.sub_self, Nat.cast_zero] at divisor
  exact ofFloat_sqrt_nan (ofFloat_zero_div_zero squares divisor)

/-- Of several draws the deviation is a number, and zero exactly if all totals lie at the mean. -/
theorem exists_value?_stdDev (several : 2 ≤ n) :
    ∃ s, value? (Summary.ofEntries draws entries).stdDev = some s ∧ 0 ≤ s ∧
      (s = 0 ↔ ∀ entry ∈ entries,
        (entry.1.toInt : ℚ) = rounded (((entries.map weight).sum : ℤ) / n)) := by
  obtain ⟨r, squares, nonneg, upper, atMean, offMean⟩ := h.exists_value?_squaresAround
    (central_mean h.abs_sum_le positive few) (h.value?_meanOf positive hdraws)
  have divisor := value?_sub_one positive few hdraws
  have least : (1 : ℚ) ≤ (n - 1 : ℕ) := by exact_mod_cast (by omega)
  have most : ((n - 1 : ℕ) : ℚ) ≤ 2 ^ 53 := by exact_mod_cast (by omega)
  generalize ((n - 1 : ℕ) : ℚ) = d at divisor least most
  have positive' : 0 < d := by linarith
  have variance : value? (Summary.squaresAround (Summary.meanOf draws entries) entries /
      (draws - 1.0)) = some (rounded (r / d)) := by
    refine value?_div squares divisor positive'.ne' ?_
    refine lt_outOfRange_of_le (by norm_num) (abs_rounded_le (representable_two_pow 214) ?_)
    rw [abs_of_nonneg (by positivity), div_le_iff₀ positive']
    exact upper.trans (le_mul_of_one_le_right (by positivity) least)
  obtain ⟨s, root, nonneg', zero⟩ :=
    exists_value?_sqrt_eq_zero_iff variance (rounded_nonneg (by positivity))
  refine ⟨s, root, nonneg', zero.trans ⟨fun vanishes => ?_, fun same => ?_⟩⟩
  · by_contra apart
    push Not at apart
    have far : 2 ^ (-263 : ℤ) ≤ rounded (r / d) := by
      refine le_rounded (representable_zpow (by norm_num)) ?_
      rw [le_div_iff₀ positive']
      calc
        (2 : ℚ) ^ (-263 : ℤ) * d ≤ 2 ^ (-263 : ℤ) * 2 ^ 53 := by gcongr
        _ = 2 ^ (-210 : ℤ) := by
          rw [← zpow_natCast, ← zpow_add₀ two_ne_zero]
          norm_num
        _ ≤ r := offMean apart
    rw [vanishes] at far
    exact absurd far (by norm_num)
  · rw [atMean same, zero_div, rounded_zero]

end Deviation

end Moderate

namespace Sample

variable {sample : Sample} {draws : List Int64}

namespace Counts

/-- The totals of the entries are the draws. -/
theorem forall_mem_entries_iff (h : Counts sample draws) {p : Int64 → Prop} :
    (∀ entry ∈ sample.entries, p entry.1) ↔ ∀ drawn ∈ draws, p drawn := by
  have totals : ∀ total, total ∈ sample.entries.map Prod.fst ↔ total ∈ draws := fun total => by
    rw [Sample.entries, Std.ExtTreeMap.map_fst_toList_eq_keys, Std.ExtTreeMap.mem_keys,
      h.mem_tallies_iff]
  simp only [← totals, List.forall_mem_map]

section Exact

variable (h : Counts sample draws) (few : draws.length < UInt64.size)
include h few

theorem sum_weight : (sample.entries.map weight).sum = (draws.map Int64.toInt).sum := by
  rw [← h.sum_map_entries few]
  congr 1
  refine List.map_congr_left fun entry _ => ?_
  rw [weight, nsmul_eq_mul, mul_comm]

theorem moderate_entries (small : draws.length ≤ 2 ^ 53)
    (magnitudes : (sample.entries.map fun entry => |entry.1.toInt| * (entry.2.toNat : ℤ)).sum ≤
      2 ^ 53) : Moderate sample.entries where
  tally_pos entry mem := by
    have drawn := h.forall_mem_entries_iff.mpr (fun drawn mem => mem) entry mem
    rw [h.toNat_of_mem_entries few mem]
    exact List.count_pos_iff.mpr drawn
  sum_tallies_le := by
    rw [h.sum_entries few]
    exact small
  sum_magnitudes_le := by
    simpa only [abs_weight] using magnitudes

theorem isEmpty_iff : sample.isEmpty = true ↔ draws = [] := by
  rw [Sample.isEmpty, decide_eq_true_iff, ← UInt64.toNat_inj, h.toNat_len few]
  exact List.length_eq_zero_iff

theorem summary_eq_none_iff : sample.summary = none ↔ draws = [] := by
  rw [← h.isEmpty_iff few, Sample.summary]
  split_ifs with empty <;> simp [empty]

theorem summary_eq_some (nonempty : draws ≠ []) :
    sample.summary = some (.ofEntries sample.len.toFloat sample.entries) := by
  rw [Sample.summary, if_neg (mt (h.isEmpty_iff few).mp nonempty)]

end Exact

end Counts

/-- All draws lie at their rounded mean exactly if they are all equal. -/
theorem forall_eq_mean_iff (nonempty : draws ≠ [])
    (small : ∀ drawn ∈ draws, |drawn.toInt| ≤ 2 ^ 53) :
    (∀ drawn ∈ draws, (drawn.toInt : ℚ) =
      rounded (((draws.map Int64.toInt).sum : ℤ) / draws.length)) ↔
      ∀ a ∈ draws, ∀ b ∈ draws, a = b := by
  constructor
  · intro same a ha b hb
    have equal : (a.toInt : ℚ) = b.toInt := (same a ha).trans (same b hb).symm
    exact Int64.toInt_inj.mp (by exact_mod_cast equal)
  · intro same drawn mem
    have all : draws = List.replicate draws.length drawn :=
      List.eq_replicate_iff.mpr ⟨rfl, fun other hother => same other hother drawn mem⟩
    have length : (draws.length : ℚ) ≠ 0 := by
      exact_mod_cast (List.length_pos_iff.mpr nonempty).ne'
    have sum : (((draws.map Int64.toInt).sum : ℤ) : ℚ) = draws.length * drawn.toInt := by
      rw [all, List.map_replicate, List.sum_replicate, List.length_replicate, nsmul_eq_mul,
        Int.cast_mul, Int.cast_natCast]
    rw [sum, mul_div_cancel_left₀ _ length,
      rounded_of_representable (representable_intCast (small drawn mem))]

namespace Counts

section Orders

variable (h : Counts sample draws) (few : draws.length < UInt64.size) (nonempty : draws ≠ [])
  (moderate : Moderate sample.entries) {entries : List (Int64 × UInt64)}
  (perm : entries.Perm sample.entries)
include h few nonempty moderate perm

/-- In every order of the entries, they lie at the rounded mean exactly if the draws are equal. -/
theorem entries_eq_mean_iff :
    (∀ entry ∈ entries, (entry.1.toInt : ℚ) =
      rounded (((entries.map weight).sum : ℤ) / draws.length)) ↔
      ∀ a ∈ draws, ∀ b ∈ draws, a = b := by
  have small : ∀ drawn ∈ draws, |drawn.toInt| ≤ 2 ^ 53 :=
    h.forall_mem_entries_iff.mp fun entry mem => moderate.abs_toInt_le mem
  rw [← forall_eq_mean_iff nonempty small, ← h.sum_weight few, ← (perm.map weight).sum_eq,
    ← h.forall_mem_entries_iff]
  exact forall_congr' fun entry => by rw [perm.mem_iff]

variable {len : Float} (hlen : value? len = some (draws.length : ℚ))
include hlen

theorem value?_mean :
    value? (Summary.ofEntries len entries).mean =
      some (rounded (((draws.map Int64.toInt).sum : ℤ) / draws.length)) := by
  rw [← h.sum_weight few, ← (perm.map weight).sum_eq]
  exact (moderate.of_perm perm).value?_meanOf (List.length_pos_iff.mpr nonempty) hlen

theorem exists_value?_stdDev (small : draws.length ≤ 2 ^ 53) (several : 2 ≤ draws.length) :
    ∃ deviation, value? (Summary.ofEntries len entries).stdDev = some deviation ∧
      0 ≤ deviation ∧ (deviation = 0 ↔ ∀ a ∈ draws, ∀ b ∈ draws, a = b) := by
  rw [← h.entries_eq_mean_iff few nonempty moderate perm]
  exact (moderate.of_perm perm).exists_value?_stdDev (List.length_pos_iff.mpr nonempty) small hlen
    several

theorem ofFloat_stdDev_eq_nan_iff (small : draws.length ≤ 2 ^ 53) :
    ofFloat (Summary.ofEntries len entries).stdDev = nan ↔ draws.length = 1 := by
  have positive := List.length_pos_iff.mpr nonempty
  constructor
  · intro notANumber
    by_contra other
    obtain ⟨deviation, value, -⟩ :=
      h.exists_value?_stdDev few nonempty moderate perm hlen small (by omega)
    rw [value?, notANumber] at value
    exact absurd value (Option.some_ne_none deviation).symm
  · intro one
    refine (moderate.of_perm perm).ofFloat_stdDev_of_one positive small hlen one
      ((h.entries_eq_mean_iff few nonempty moderate perm).mpr fun a ha b hb => ?_)
    obtain ⟨drawn, rfl⟩ := List.length_eq_one_iff.mp one
    rw [List.mem_singleton.mp ha, List.mem_singleton.mp hb]

end Orders

end Counts

/-- A sample has a summary exactly if something was drawn. While the number of draws and the
sum of their magnitudes stay within `2 ^ 53`, and whatever the order of the entries, the mean
is the float nearest to the exact one, and the deviation is not a number for a single draw, and
else a number that is not negative, and zero exactly if all draws are equal. -/
theorem summary_of_recorded {draws : List Int64} (few : draws.length < UInt64.size) :
    let sample := empty.recordAll draws
    (sample.summary = none ↔ draws = []) ∧
    (1 ≤ sample.len.toNat → sample.len.toNat ≤ 2 ^ 53 →
      (sample.entries.map fun entry => |entry.1.toInt| * (entry.2.toNat : ℤ)).sum ≤ 2 ^ 53 →
      sample.summary = some (.ofEntries sample.len.toFloat sample.entries) ∧
      ∀ entries : List (Int64 × UInt64), entries.Perm sample.entries →
        let summary := Summary.ofEntries sample.len.toFloat entries
        value? summary.mean =
          some (rounded (((draws.map Int64.toInt).sum : ℤ) / (draws.length : ℕ))) ∧
        (ofFloat summary.stdDev = nan ↔ sample.len.toNat = 1) ∧
        (2 ≤ sample.len.toNat → ∃ deviation, value? summary.stdDev = some deviation ∧
          0 ≤ deviation ∧ (deviation = 0 ↔ ∀ a ∈ draws, ∀ b ∈ draws, a = b))) := by
  have h : Counts (empty.recordAll draws) draws := counts_recordAll draws
  have length := h.toNat_len few
  dsimp only
  refine ⟨h.summary_eq_none_iff few, fun least most magnitudes => ?_⟩
  have nonempty : draws ≠ [] := List.length_pos_iff.mp (by omega)
  have small : draws.length ≤ 2 ^ 53 := by omega
  have moderate := h.moderate_entries few small magnitudes
  have hlen := value?_toFloat_of_le most
  rw [length] at hlen ⊢
  exact ⟨h.summary_eq_some few nonempty, fun entries perm =>
    ⟨h.value?_mean few nonempty moderate perm hlen,
      h.ofFloat_stdDev_eq_nan_iff few nonempty moderate perm hlen small,
      h.exists_value?_stdDev few nonempty moderate perm hlen small⟩⟩

/-- Three draws, two of them alike, with the entries in descending order. -/
theorem summary_of_recorded_of_three_draws :
    let sample := empty.recordAll [3, -1, 3]
    ([3, -1, 3] : List Int64).length < UInt64.size ∧
    1 ≤ sample.len.toNat ∧ 2 ≤ sample.len.toNat ∧ sample.len.toNat ≤ 2 ^ 53 ∧
    (sample.entries.map fun entry => |entry.1.toInt| * (entry.2.toNat : ℤ)).sum ≤ 2 ^ 53 ∧
    [(3, 2), (-1, 1)].Perm sample.entries ∧
    sample.summary = some (.ofEntries sample.len.toFloat sample.entries) ∧
    value? (Summary.ofEntries sample.len.toFloat [(3, 2), (-1, 1)]).mean =
      some (rounded (5 / 3)) ∧
    ∃ deviation, value? (Summary.ofEntries sample.len.toFloat [(3, 2), (-1, 1)]).stdDev =
      some deviation ∧ 0 < deviation := by
  have few : ([3, -1, 3] : List Int64).length < UInt64.size := by decide
  have length : (empty.recordAll [3, -1, 3]).len.toNat = 3 := rfl
  have entries : (empty.recordAll [3, -1, 3]).entries = [(-1, 1), (3, 2)] := rfl
  have least : 1 ≤ (empty.recordAll [3, -1, 3]).len.toNat := by omega
  have several : 2 ≤ (empty.recordAll [3, -1, 3]).len.toNat := by omega
  have most : (empty.recordAll [3, -1, 3]).len.toNat ≤ 2 ^ 53 := by omega
  have magnitudes : ((empty.recordAll [3, -1, 3]).entries.map fun entry =>
      |entry.1.toInt| * (entry.2.toNat : ℤ)).sum ≤ 2 ^ 53 := by
    rw [entries]
    decide
  have perm : [(3, 2), (-1, 1)].Perm (empty.recordAll [3, -1, 3]).entries := by
    rw [entries]
    exact .swap ..
  obtain ⟨-, summary⟩ := summary_of_recorded few
  obtain ⟨same, orders⟩ := summary least most magnitudes
  obtain ⟨mean, -, deviation⟩ := orders _ perm
  obtain ⟨s, value, nonneg, zero⟩ := deviation several
  refine ⟨few, least, several, most, magnitudes, perm, same, ?_, s, value, ?_⟩
  · have sum : ((([3, -1, 3] : List Int64).map Int64.toInt).sum : ℤ) = 5 := rfl
    rw [mean, sum]
    norm_num
  · refine lt_of_le_of_ne nonneg fun vanishes => ?_
    exact absurd (zero.mp vanishes.symm 3 (by decide) (-1) (by decide)) (by decide)

end Sample

end DiceSampling
