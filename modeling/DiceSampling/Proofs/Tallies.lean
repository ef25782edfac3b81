/-
# Samples as multisets of draws

A sample keeps of a sequence of draws how often each total was drawn and how many draws
there were, and nothing else.  So with fewer than `2 ^ 64` draws every tally is exact, and
two sequences give one sample exactly if each is a rearrangement of the other.
-/

import DiceSampling.Sample.Basic
import Mathlib.Algebra.BigOperators.Group.Finset.Basic
import Mathlib.Algebra.GroupWithZero.Nat
import Mathlib.Tactic.Common

namespace DiceSampling.Sample

/-- What a sample keeps of the draws that were counted: a tally for each total that was
drawn and the number of draws, both as words of 64 bits. -/
structure Counts (sample : Sample) (draws : List Int64) : Prop where
  getElem?_tallies : ∀ total, sample.tallies[total]? =
    if total ∈ draws then some (UInt64.ofNat (draws.count total)) else none
  len_eq : sample.len = UInt64.ofNat draws.length

variable {sample : Sample} {draws : List Int64}

theorem counts_empty : Counts empty [] where
  getElem?_tallies total := by
    rw [if_neg List.not_mem_nil]
    exact Std.ExtTreeMap.getElem?_empty
  len_eq := rfl

theorem map_fst_frequencies (sample : Sample) :
    sample.frequencies.map Prod.fst = sample.totals := by
  rw [frequencies, List.map_map]
  exact List.map_id _

/-- The frequencies stand in ascending order of their totals. -/
theorem pairwise_frequencies (sample : Sample) :
    (sample.frequencies.map Prod.fst).Pairwise (· < ·) := by
  rw [map_fst_frequencies]
  exact Std.ExtTreeMap.ordered_keys.imp Std.compare_eq_lt.mp

namespace Counts

theorem count_eq (h : Counts sample draws) (total : Int64) :
    sample.count total = UInt64.ofNat (draws.count total) := by
  rw [Sample.count, Std.ExtTreeMap.getD_eq_getD_getElem?, h.getElem?_tallies]
  split
  · rfl
  · rw [List.count_eq_zero_of_not_mem ‹_›]
    rfl

/-- One more draw. -/
theorem record (h : Counts sample draws) (drawn : Int64) :
    Counts (sample.record drawn) (draws ++ [drawn]) where
  getElem?_tallies total := by
    rw [Sample.record, Std.ExtTreeMap.getElem?_alter]
    by_cases same : drawn = total
    · subst same
      have tally : sample.tallies[drawn]?.getD 0 = UInt64.ofNat (draws.count drawn) := by
        rw [← Std.ExtTreeMap.getD_eq_getD_getElem?]
        exact h.count_eq drawn
      rw [if_pos Std.ReflCmp.compare_self, if_pos List.mem_concat_self, tally, List.count_append,
        List.count_singleton_self, UInt64.ofNat_add]
      rfl
    · rw [if_neg (mt Std.LawfulEqCmp.eq_of_compare same), h.getElem?_tallies, List.count_append,
        List.count_singleton, if_neg (mt beq_iff_eq.mp same), Nat.add_zero]
      simp only [List.mem_append, List.mem_singleton, Ne.symm same, or_false]
  len_eq := by
    rw [List.length_append, UInt64.ofNat_add, ← h.len_eq]
    rfl

/-- Any number of draws, in order. -/
theorem recordAll (h : Counts sample draws) (more : List Int64) :
    Counts (sample.recordAll more) (draws ++ more) := by
  induction more generalizing sample draws with
  | nil =>
      rw [List.append_nil]
      exact h
  | cons drawn more ih =>
      rw [← List.singleton_append, ← List.append_assoc]
      exact ih (h.record drawn)

theorem mem_tallies_iff (h : Counts sample draws) (total : Int64) :
    total ∈ sample.tallies ↔ total ∈ draws := by
  rw [Std.ExtTreeMap.mem_iff_isSome_getElem?, h.getElem?_tallies]
  split <;> simp_all

/-- The totals are the draws without repetition. -/
theorem totals_perm_dedup (h : Counts sample draws) : sample.totals.Perm draws.dedup := by
  refine (List.perm_ext_iff_of_nodup Std.ExtTreeMap.nodup_keys draws.nodup_dedup).mpr ?_
  intro total
  rw [Std.ExtTreeMap.mem_keys, h.mem_tallies_iff, List.mem_dedup]

section Exact

variable (h : Counts sample draws) (few : draws.length < UInt64.size)
include h few

theorem toNat_len : sample.len.toNat = draws.length := by
  rw [h.len_eq, UInt64.toNat_ofNat_of_lt' few]

theorem toNat_count (total : Int64) : (sample.count total).toNat = draws.count total := by
  rw [h.count_eq, UInt64.toNat_ofNat_of_lt' (List.count_le_length.trans_lt few)]

theorem toNat_of_mem_entries {entry : Int64 × UInt64} (mem : entry ∈ sample.entries) :
    entry.2.toNat = draws.count entry.1 := by
  have tally : sample.tallies[entry.1]? = some entry.2 :=
    Std.ExtTreeMap.mem_toList_iff_getElem?_eq_some.mp mem
  rw [← h.toNat_count few, Sample.count, Std.ExtTreeMap.getD_eq_getD_getElem?, tally]
  rfl

/-- A sum over the tallies is the sum over the draws. -/
theorem sum_map_entries {M : Type} [AddCommMonoid M] (f : Int64 → M) :
    (sample.entries.map fun entry => entry.2.toNat • f entry.1).sum = (draws.map f).sum := by
  calc
    (sample.entries.map fun entry => entry.2.toNat • f entry.1).sum
      = (sample.entries.map fun entry => draws.count entry.1 • f entry.1).sum := by
        congr 1
        exact List.map_congr_left fun entry mem => by rw [h.toNat_of_mem_entries few mem]
    _ = (sample.totals.map fun total => draws.count total • f total).sum := by
        rw [Sample.totals, ← Std.ExtTreeMap.map_fst_toList_eq_keys, List.map_map]
        rfl
    _ = (draws.dedup.map fun total => draws.count total • f total).sum :=
        ((h.totals_perm_dedup).map _).sum_eq
    _ = (draws.map f).sum := by
        have same : draws.dedup.toFinset = draws.toFinset := by
          ext total
          simp
        rw [← List.sum_toFinset _ draws.nodup_dedup, same, Finset.sum_list_map_count]

/-- All tallies together are the number of draws. -/
theorem sum_entries : (sample.entries.map fun entry => entry.2.toNat).sum = draws.length := by
  have ones := h.sum_map_entries few fun _ => 1
  simpa using ones

end Exact

theorem min?_eq_none_iff (h : Counts sample draws) : sample.min? = none ↔ draws = [] := by
  rw [Sample.min?, Std.ExtTreeMap.minKey?_eq_none_iff, ← Std.ExtTreeMap.keys_eq_nil_iff,
    List.eq_nil_iff_forall_not_mem, List.eq_nil_iff_forall_not_mem]
  simp only [Std.ExtTreeMap.mem_keys, h.mem_tallies_iff]

theorem min?_eq_some_iff (h : Counts sample draws) (least : Int64) :
    sample.min? = some least ↔ least ∈ draws ∧ ∀ total ∈ draws, least ≤ total := by
  rw [Sample.min?, Std.ExtTreeMap.minKey?_eq_some_iff_mem_and_forall]
  simp only [h.mem_tallies_iff, Std.isLE_compare]

theorem max?_eq_none_iff (h : Counts sample draws) : sample.max? = none ↔ draws = [] := by
  rw [Sample.max?, Std.ExtTreeMap.maxKey?_eq_none_iff, ← Std.ExtTreeMap.minKey?_eq_none_iff]
  exact h.min?_eq_none_iff

theorem max?_eq_some_iff (h : Counts sample draws) (greatest : Int64) :
    sample.max? = some greatest ↔ greatest ∈ draws ∧ ∀ total ∈ draws, total ≤ greatest := by
  rw [Sample.max?, Std.ExtTreeMap.maxKey?_eq_some_iff_mem_and_forall]
  simp only [h.mem_tallies_iff, Std.isLE_compare]

/-- The totals that are listed with their shares are those that were drawn. -/
theorem mem_map_fst_frequencies_iff (h : Counts sample draws) (total : Int64) :
    total ∈ sample.frequencies.map Prod.fst ↔ total ∈ draws := by
  rw [map_fst_frequencies, totals, Std.ExtTreeMap.mem_keys, h.mem_tallies_iff]

theorem snd_eq_frequency {entry : Int64 × Float} (mem : entry ∈ sample.frequencies) :
    entry.2 = sample.frequency entry.1 := by
  obtain ⟨total, -, rfl⟩ := List.mem_map.mp mem
  rfl

/-- The share that is listed with a total is its part of the draws. -/
theorem snd_of_mem_frequencies (h : Counts sample draws) (few : draws.length < UInt64.size)
    {entry : Int64 × Float} (mem : entry ∈ sample.frequencies) :
    entry.2 = (UInt64.ofNat (draws.count entry.1)).toFloat /
      (UInt64.ofNat draws.length).toFloat := by
  have drawn : entry.1 ∈ draws :=
    (h.mem_map_fst_frequencies_iff entry.1).mp (List.mem_map_of_mem mem)
  have nonempty : sample.isEmpty = false := by
    rw [Sample.isEmpty, decide_eq_false_iff_not, ← UInt64.toNat_inj, h.toNat_len few]
    exact (List.length_pos_of_mem drawn).ne'
  rw [snd_eq_frequency mem, Sample.frequency, nonempty, h.count_eq, h.len_eq]
  rfl

section TwoSequences

variable {other : Sample} {others : List Int64} (h : Counts sample draws) (h' : Counts other others)
include h h'

theorem eq_of_perm (perm : draws.Perm others) : sample = other := by
  have len : sample.len = other.len := by
    rw [h.len_eq, h'.len_eq, perm.length_eq]
  have tallies : sample.tallies = other.tallies := by
    apply Std.ExtTreeMap.ext_getElem?
    intro total
    simp only [h.getElem?_tallies, h'.getElem?_tallies, perm.mem_iff, perm.count_eq]
  cases sample
  cases other
  exact (Sample.mk.injEq ..).mpr ⟨tallies, len⟩

/-- Samples are equal exactly if the draws are the same up to their order. -/
theorem eq_iff_perm (few : draws.length < UInt64.size) (few' : others.length < UInt64.size) :
    sample = other ↔ draws.Perm others := by
  refine ⟨fun same => ?_, h.eq_of_perm h'⟩
  subst same
  rw [List.perm_iff_count]
  intro total
  rw [← h.toNat_count few, h'.toNat_count few']

end TwoSequences

end Counts

theorem counts_recordAll (draws : List Int64) : Counts (empty.recordAll draws) draws :=
  counts_empty.recordAll draws

/-- No count overflows while draws are counted, starting from an empty sample. -/
def NoOverflow (draws : List Int64) : Prop :=
  ∀ before drawn after, draws = before ++ drawn :: after →
    ((empty.recordAll before).count drawn).toNat + 1 < UInt64.size ∧
    (empty.recordAll before).len.toNat + 1 < UInt64.size

/-- A step starts from fewer draws than there are in all, and so has room for one more. -/
theorem noOverflow {draws : List Int64} (few : draws.length < UInt64.size) :
    NoOverflow draws := by
  intro before drawn after split
  have length : before.length + 1 ≤ draws.length := by
    rw [split, List.length_append, List.length_cons]
    omega
  have counts := counts_recordAll before
  have tally : before.count drawn ≤ before.length := List.count_le_length
  rw [counts.toNat_count (by omega), counts.toNat_len (by omega)]
  omega

/-- With fewer than `2 ^ 64` draws the length and the tallies are exact and no step overflows,
the ends are the least and the greatest draw, the frequencies list each total that was drawn
once, in ascending order, with its share, and any other draws give the same sample exactly if
they are a rearrangement. -/
theorem recordAll_counts_draws {draws : List Int64} (few : draws.length < UInt64.size) :
    let sample := empty.recordAll draws
    sample.len.toNat = draws.length ∧
    (sample.entries.map fun entry => entry.2.toNat).sum = draws.length ∧
    (∀ total, (sample.count total).toNat = draws.count total) ∧
    (∀ before drawn after, draws = before ++ drawn :: after →
      ((empty.recordAll before).count drawn).toNat + 1 < UInt64.size ∧
      (empty.recordAll before).len.toNat + 1 < UInt64.size) ∧
    ((sample.min? = none ↔ draws = []) ∧
      ∀ least, sample.min? = some least ↔ least ∈ draws ∧ ∀ total ∈ draws, least ≤ total) ∧
    ((sample.max? = none ↔ draws = []) ∧
      ∀ greatest, sample.max? = some greatest ↔
        greatest ∈ draws ∧ ∀ total ∈ draws, total ≤ greatest) ∧
    ((sample.frequencies.map Prod.fst).Pairwise (· < ·) ∧
      (∀ total, total ∈ sample.frequencies.map Prod.fst ↔ total ∈ draws) ∧
      ∀ entry ∈ sample.frequencies, entry.2 = sample.frequency entry.1 ∧
        entry.2 = (UInt64.ofNat (draws.count entry.1)).toFloat /
          (UInt64.ofNat draws.length).toFloat) ∧
    ∀ others : List Int64, others.length < UInt64.size →
      (sample = empty.recordAll others ↔ draws.Perm others) := by
  have h : Counts (empty.recordAll draws) draws := counts_recordAll draws
  exact ⟨h.toNat_len few, h.sum_entries few, h.toNat_count few, noOverflow few,
    ⟨h.min?_eq_none_iff, h.min?_eq_some_iff⟩, ⟨h.max?_eq_none_iff, h.max?_eq_some_iff⟩,
    ⟨pairwise_frequencies _, h.mem_map_fst_frequencies_iff,
      fun entry mem => ⟨Counts.snd_eq_frequency mem, h.snd_of_mem_frequencies few mem⟩⟩,
    fun others few' => h.eq_iff_perm (counts_recordAll others) few few'⟩

/-- Three draws, two of them alike, in two orders. -/
theorem recordAll_of_three_draws :
    ([3, -1, 3] : List Int64).length < UInt64.size ∧
    (empty.recordAll [3, -1, 3]).len.toNat = 3 ∧
    ((empty.recordAll [3, -1, 3]).count 3).toNat = 2 ∧
    (empty.recordAll [3, -1, 3]).min? = some (-1) ∧
    empty.recordAll [3, -1, 3] = empty.recordAll [-1, 3, 3] := by
  have few : ([3, -1, 3] : List Int64).length < UInt64.size := by decide
  obtain ⟨len, -, count, -, ⟨-, min⟩, -, -, same⟩ := recordAll_counts_draws few
  exact ⟨few, len, count 3, (min (-1)).mpr (by simp), (same [-1, 3, 3] few).mpr (by decide)⟩

end DiceSampling.Sample
