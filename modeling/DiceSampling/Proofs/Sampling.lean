/-
# Repeated draws

A sample of more draws is a sample of fewer draws that is gone on with from the state
they left.  Each draw only adds to the tallies, so none of them ever falls.
-/

import DiceSampling.Sample.Basic
import DiceSampling.Proofs.Outcome

namespace DiceSampling

variable {σ : Type}

theorem Sample.count_empty (total : Int64) : Sample.empty.count total = 0 := by
  simp [Sample.empty, Sample.count]

theorem Sample.toNat_count_record (sample : Sample) (drawn total : Int64)
    (room : (sample.count total).toNat + 1 < UInt64.size) :
    ((sample.record drawn).count total).toNat =
      (sample.count total).toNat + if drawn = total then 1 else 0 := by
  rw [Sample.count_record]
  split
  · rw [UInt64.toNat_add, UInt64.toNat_one, Nat.mod_eq_of_lt room]
  · rfl

theorem Sample.toNat_len_record (sample : Sample) (drawn : Int64)
    (room : sample.len.toNat + 1 < UInt64.size) :
    (sample.record drawn).len.toNat = sample.len.toNat + 1 := by
  rw [Sample.record, UInt64.toNat_add, UInt64.toNat_one, Nat.mod_eq_of_lt room]

namespace Act

theorem sampleInto_succ_apply (sampler : Act σ Int64) (n : ℕ) (sample : Sample) (s : σ) :
    sampleInto sampler (n + 1) sample s =
      Outcome.andThen (sampler s) fun total => sampleInto sampler n (sample.record total) :=
  bind_apply sampler _ s

/-- Draws can be cut in two anywhere. -/
theorem sampleInto_add (sampler : Act σ Int64) (m n : ℕ) (sample : Sample) :
    sampleInto sampler (m + n) sample = sampleInto sampler m sample >>= sampleInto sampler n := by
  induction m generalizing sample with
  | zero => rw [Nat.zero_add, sampleInto, pure_bind]
  | succ m ih =>
      rw [Nat.succ_add, sampleInto, sampleInto, bind_assoc]
      congr 1
      funext total
      exact ih (sample.record total)

/-- While there is room, a tally grows by no more than the number of draws, and never falls. -/
theorem count_sampleInto {sampler : Act σ Int64} {n : ℕ} {sample sample' : Sample} {s s' : σ}
    (h : sampleInto sampler n sample s = (.ok sample', s')) (total : Int64)
    (room : (sample.count total).toNat + n < UInt64.size) :
    (sample.count total).toNat ≤ (sample'.count total).toNat ∧
      (sample'.count total).toNat ≤ (sample.count total).toNat + n := by
  induction n generalizing sample s with
  | zero =>
      cases h
      omega
  | succ n ih =>
      rw [sampleInto_succ_apply] at h
      obtain ⟨drawn, next, -, rest⟩ := Outcome.andThen_eq_ok h
      have step := Sample.toNat_count_record sample drawn total (by omega)
      have atMost : (if drawn = total then 1 else 0) ≤ 1 := by
        split <;> omega
      obtain ⟨lower, upper⟩ := ih rest (by omega)
      omega

end Act

end DiceSampling
