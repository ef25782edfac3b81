/-
# Frequencies as shares

A frequency lies between zero and one if no tally exceeds the length, and then no tally is
full before the length is.  Counting a draw keeps this, since the length grows with every
tally.  A text that is read is not asked for it: its tallies and its length are taken as they
stand.  From a sample with a tally beyond its length, more draws of the same total lead to
one whose tally has no room while its length has.  So it is exactly the texts that decide
whether all samples are sound.
-/

import DiceSampling.Json.Codec
import DiceSampling.Proofs.Bars
import DiceSampling.Proofs.Sampling

namespace DiceSampling

open Binary64

namespace Sample

/-- No tally exceeds the length. -/
def Covered (sample : Sample) : Prop := ∀ total, sample.count total ≤ sample.len

/-- Every frequency is a share, and one more draw that fits in the length fits in every
tally. -/
structure Sound (sample : Sample) : Prop where
  share : ∀ total, 0.0 ≤ sample.frequency total ∧ sample.frequency total ≤ 1.0
  room : sample.len.toNat + 1 < UInt64.size →
    ∀ total, (sample.count total).toNat + 1 < UInt64.size

/-- The samples that can come about: without draws, from a number of runs of a sampler, by
reading one of some texts, and by counting one more draw while the length has room for it.
A copy of a sample is the same sample. -/
inductive Produced (texts : Set String) : Sample → Prop
  | empty : Produced texts .empty
  | sampled {σ : Type} {sampler : Act σ Int64} {n : UInt64} {s s' : σ} {sample : Sample}
    (run : Act.sample sampler n s = (.ok sample, s')) : Produced texts sample
  | read {text : String} {sample : Sample} (mem : text ∈ texts)
    (reads : ofJsonText? text = some sample) : Produced texts sample
  | record {sample : Sample} (before : Produced texts sample) (total : Int64)
    (room : sample.len.toNat + 1 < UInt64.size) : Produced texts (sample.record total)

variable {sample : Sample} {total : Int64} {texts : Set String}

section Frequency

theorem share_le_one_iff : sample.share total ≤ 1 ↔
    sample.len = 0 ∨ rounded (sample.count total).toNat ≤ rounded sample.len.toNat := by
  by_cases empty : sample.len = 0
  · rw [share_of_len_eq_zero empty]
    exact iff_of_true zero_le_one (.inl empty)
  · have positive := one_pos.trans_le (one_le_rounded_toNat empty)
    rw [share, rounded_div_le_one_iff (representable_rounded _) (representable_rounded _) positive,
      or_iff_right empty]

/-- A frequency is a share exactly if the tally, as a float, is not above the length. -/
theorem frequency_mem_unit_iff :
    (0.0 ≤ sample.frequency total ∧ sample.frequency total ≤ 1.0) ↔
      sample.len = 0 ∨ (sample.count total).toFloat ≤ sample.len.toFloat := by
  have value := sample.value?_frequency total
  rw [le_iff_of_value? value?_zero value, le_iff_of_value? value value?_one,
    le_iff_of_value? (value?_toFloat_rounded _) (value?_toFloat_rounded _),
    and_iff_right share_nonneg, share_le_one_iff]

end Frequency

namespace Covered

theorem empty : Covered .empty := by
  intro total
  rw [count_empty]
  exact UInt64.zero_le

theorem toNat_count_le (h : Covered sample) (total : Int64) :
    (sample.count total).toNat ≤ sample.len.toNat :=
  UInt64.le_iff_toNat_le.mp (h total)

theorem sound (h : Covered sample) : Sound sample where
  share total := by
    rw [frequency_mem_unit_iff,
      le_iff_of_value? (value?_toFloat_rounded _) (value?_toFloat_rounded _)]
    exact .inr (rounded_mono (by exact_mod_cast h.toNat_count_le total))
  room more total := by
    have le := h.toNat_count_le total
    omega

/-- A draw that is counted adds one to the length and no more than one to a tally. -/
theorem record (h : Covered sample) (drawn : Int64) (room : sample.len.toNat + 1 < UInt64.size) :
    Covered (sample.record drawn) := by
  intro total
  have le := h.toNat_count_le total
  rw [UInt64.le_iff_toNat_le, toNat_len_record _ _ room, toNat_count_record _ _ _ (by omega)]
  split <;> omega

theorem sampleInto {σ : Type} {sampler : Act σ Int64} {n : ℕ} {sample' : Sample} {s s' : σ}
    (h : Covered sample) (run : Act.sampleInto sampler n sample s = (.ok sample', s'))
    (room : sample.len.toNat + n < UInt64.size) : Covered sample' := by
  induction n generalizing sample s with
  | zero =>
      cases run
      exact h
  | succ n ih =>
      rw [Act.sampleInto_succ_apply] at run
      obtain ⟨drawn, next, -, rest⟩ := Outcome.andThen_eq_ok run
      have one : sample.len.toNat + 1 < UInt64.size := by omega
      refine ih (h.record drawn one) rest ?_
      rw [toNat_len_record _ _ one]
      omega

end Covered

section Times

variable {n : ℕ} (room : sample.len.toNat + n < UInt64.size)
include room

theorem toNat_len_recordTimes :
    (sample.recordTimes total n).len.toNat = sample.len.toNat + n := by
  induction n generalizing sample with
  | zero => rfl
  | succ n ih =>
      have one := sample.toNat_len_record total (by omega)
      rw [recordTimes, ih (by omega), one]
      omega

theorem Produced.recordTimes (h : Produced texts sample) :
    Produced texts (sample.recordTimes total n) := by
  induction n generalizing sample with
  | zero => exact h
  | succ n ih =>
      have one := sample.toNat_len_record total (by omega)
      exact ih (by omega) (h.record total (by omega))

end Times

theorem toNat_count_recordTimes {n : ℕ} (room : (sample.count total).toNat + n < UInt64.size) :
    ((sample.recordTimes total n).count total).toNat = (sample.count total).toNat + n := by
  induction n generalizing sample with
  | zero => rfl
  | succ n ih =>
      have one := sample.toNat_count_record total total (by omega)
      rw [if_pos rfl] at one
      rw [recordTimes, ih (by omega), one]
      omega

namespace Produced

/-- Counting keeps every tally within the length, so only a text can break it. -/
theorem covered (h : Produced texts sample)
    (all : ∀ text ∈ texts, ∀ sample, ofJsonText? text = some sample → Covered sample) :
    Covered sample := by
  induction h with
  | empty => exact Covered.empty
  | @sampled σ sampler n s s' sample run =>
      refine Covered.empty.sampleInto run ?_
      rw [show Sample.empty.len.toNat = 0 from rfl, Nat.zero_add]
      exact n.toNat_lt
  | read mem reads => exact all _ mem _ reads
  | record _ drawn room ih => exact ih.record drawn room

/-- From a tally beyond the length, draws of its total fill it while the length has room. -/
theorem exists_not_sound (h : Produced texts sample) (beyond : sample.len < sample.count total) :
    ∃ full, Produced texts full ∧ ¬ Sound full := by
  have bound : (sample.count total).toNat < UInt64.size := UInt64.toNat_lt _
  obtain ⟨n, full⟩ := Nat.exists_eq_add_of_lt bound
  have less := UInt64.lt_iff_toNat_lt.mp beyond
  refine ⟨sample.recordTimes total n, h.recordTimes (by omega), fun sound => ?_⟩
  have length : (sample.recordTimes total n).len.toNat = sample.len.toNat + n :=
    toNat_len_recordTimes (by omega)
  have tally : ((sample.recordTimes total n).count total).toNat =
      (sample.count total).toNat + n := toNat_count_recordTimes (by omega)
  have more := sound.room (by omega) total
  omega

end Produced

/-- All samples that come about from some texts and any draws are sound exactly if no text is
read as a sample with a tally beyond its length; without any text they are. A single frequency
of a sample, however it came about, is a share exactly if there are no draws or its tally
becomes no greater float than the length. -/
theorem sound_of_produced_iff (texts : Set String) :
    ((∀ sample, Produced texts sample → Sound sample) ↔
      ∀ text ∈ texts, ∀ sample, ofJsonText? text = some sample → Covered sample) ∧
    ∀ (sample : Sample) (total : Int64),
      (0.0 ≤ sample.frequency total ∧ sample.frequency total ≤ 1.0) ↔
        sample.len = 0 ∨ (sample.count total).toFloat ≤ sample.len.toFloat := by
  refine ⟨⟨fun sound text mem sample reads total => ?_, fun all sample h => ?_⟩,
    fun sample total => frequency_mem_unit_iff⟩
  · by_contra beyond
    obtain ⟨full, produced, unsound⟩ :=
      (Produced.read mem reads).exists_not_sound (UInt64.not_le.mp beyond)
    exact unsound (sound full produced)
  · exact (h.covered all).sound

/-- One draw, and a full tally. -/
def overfull : Sample := ⟨.ofList [((1 : Int64), (18446744073709551615 : UInt64))], 1⟩

/-- A text that is read as a sample with a frequency above one, which has room for a draw in
its length and none in its tally. -/
theorem exists_read_not_sound :
    ofJsonText? "\x7b\"counts\":\x7b\"1\":18446744073709551615\x7d,\"len\":1\x7d" =
      some overfull ∧
    (¬ ∀ sample, Produced Set.univ sample →
      ∀ total, 0.0 ≤ sample.frequency total ∧ sample.frequency total ≤ 1.0) ∧
    ¬ ∀ sample, Produced Set.univ sample → sample.len.toNat + 1 < UInt64.size →
      ∀ total, (sample.count total).toNat + 1 < UInt64.size := by
  have reads : ofJsonText? "\x7b\"counts\":\x7b\"1\":18446744073709551615\x7d,\"len\":1\x7d" =
      some overfull := by decide
  have produced : Produced Set.univ overfull := .read (Set.mem_univ _) reads
  refine ⟨reads, fun shares => ?_, fun room => ?_⟩
  · have share := frequency_mem_unit_iff.mp (shares overfull produced 1)
    exact absurd share (by decide)
  · exact absurd (room overfull produced (by decide) 1) (by decide)

end Sample

end DiceSampling
