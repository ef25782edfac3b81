/-
# What a sample takes from its sampler

A sampler may change a state and may fail, so what its successive calls give is a list of
results.  Sampling walks that list up to the first fault, or to the number of draws that
was asked for: it takes every result in order, and calls no further.
-/

import DiceSampling.Proofs.Sampling
import DiceSampling.Proofs.Tallies

namespace DiceSampling

namespace Act

variable {σ α : Type}

/-- The results of the first calls of a computation.  A fault does not end them: the next call
starts from the state that the fault left. -/
def results (act : Act σ α) : ℕ → σ → List (Except Fault α)
  | 0, _ => []
  | calls + 1, s => (act s).1 :: act.results calls (act s).2

/-- The state after a number of calls. -/
def after (act : Act σ α) : ℕ → σ → σ
  | 0, s => s
  | calls + 1, s => act.after calls (act s).2

/-- The computation with a log to which every call adds its result. -/
def logged (act : Act σ α) : Act (σ × List (Except Fault α)) α := fun p =>
  ((act p.1).1, (act p.1).2, p.2 ++ [(act p.1).1])

theorem length_results (act : Act σ α) (calls : ℕ) (s : σ) :
    (act.results calls s).length = calls := by
  induction calls generalizing s with
  | zero => rfl
  | succ calls ih => exact congrArg (· + 1) (ih (act s).2)

/-- Each result is that of a call in some state. -/
theorem exists_of_mem_results {act : Act σ α} {calls : ℕ} {s : σ} {result : Except Fault α}
    (h : result ∈ act.results calls s) : ∃ s', (act s').1 = result := by
  induction calls generalizing s with
  | zero => exact absurd h List.not_mem_nil
  | succ calls ih =>
      rcases List.mem_cons.mp h with rfl | later
      · exact ⟨s, rfl⟩
      · exact ih later

/-- Logging does not change the results. -/
theorem results_logged (act : Act σ α) (calls : ℕ) (s : σ) (log : List (Except Fault α)) :
    act.logged.results calls (s, log) = act.results calls s := by
  induction calls generalizing s log with
  | zero => rfl
  | succ calls ih => exact congrArg ((act s).1 :: ·) (ih (act s).2 (log ++ [(act s).1]))

/-- The log shows which calls were made, and in which order. -/
theorem after_logged (act : Act σ α) (calls : ℕ) (s : σ) (log : List (Except Fault α)) :
    act.logged.after calls (s, log) = (act.after calls s, log ++ act.results calls s) := by
  induction calls generalizing s log with
  | zero => rw [results, List.append_nil, after, after]
  | succ calls ih =>
      rw [after, results, List.append_cons]
      exact ih (act s).2 (log ++ [(act s).1])

/-- The first calls of a longer run are a shorter run. -/
theorem results_of_append {act : Act σ α} {calls : ℕ} {s : σ}
    {first rest : List (Except Fault α)} (h : act.results calls s = first ++ rest) :
    act.results first.length s = first := by
  induction calls generalizing s first with
  | zero =>
      obtain ⟨rfl, -⟩ := List.append_eq_nil_iff.mp h.symm
      rfl
  | succ calls ih =>
      cases first with
      | nil => rfl
      | cons result first =>
          obtain ⟨rfl, tail⟩ := List.cons.inj h
          exact congrArg ((act s).1 :: ·) (ih tail)

/-- Results are all totals, or some totals with a fault behind them. -/
theorem exists_eq_map_ok_or (rs : List (Except Fault α)) :
    (∃ totals : List α, rs = totals.map .ok) ∨
      ∃ (totals : List α) (fault : Fault) (rest : List (Except Fault α)),
        rs = totals.map .ok ++ .error fault :: rest := by
  induction rs with
  | nil => exact .inl ⟨[], rfl⟩
  | cons result rs ih =>
      cases result with
      | error fault => exact .inr ⟨[], fault, rs, rfl⟩
      | ok total =>
          obtain ⟨totals, rfl⟩ | ⟨totals, fault, rest, rfl⟩ := ih
          · exact .inl ⟨total :: totals, rfl⟩
          · exact .inr ⟨total :: totals, fault, rest, rfl⟩

section Sampler

variable {sampler : Act σ Int64} {n : ℕ} {s : σ} {totals : List Int64}

/-- If no call fails, all results are counted. -/
theorem sampleInto_of_results (h : sampler.results n s = totals.map .ok) (sample : Sample) :
    sampleInto sampler n sample s = (.ok (sample.recordAll totals), sampler.after n s) := by
  induction n generalizing s totals sample with
  | zero =>
      obtain rfl := List.map_eq_nil_iff.mp h.symm
      rfl
  | succ n ih =>
      obtain ⟨total, totals, rfl, first, rest⟩ := List.map_eq_cons_iff.mp h.symm
      rw [sampleInto_succ_apply, ← Prod.eta (sampler s), ← first]
      exact ih rest.symm (sample.record total)

/-- The first call that fails is the last one. -/
theorem sampleInto_of_results_error {fault : Fault} {rest : List (Except Fault Int64)}
    (h : sampler.results n s = totals.map .ok ++ .error fault :: rest) (sample : Sample) :
    sampleInto sampler n sample s = (.error fault, sampler.after (totals.length + 1) s) := by
  induction n generalizing s totals sample with
  | zero => exact absurd h.symm (by simp [results])
  | succ n ih =>
      rw [sampleInto_succ_apply, ← Prod.eta (sampler s)]
      cases totals with
      | nil =>
          obtain ⟨first, -⟩ := List.cons.inj h
          rw [first]
          rfl
      | cons total totals =>
          obtain ⟨first, tail⟩ := List.cons.inj h
          rw [first]
          exact ih tail (sample.record total)

end Sampler

/-- If the first `n` calls all give totals, the sample is that of these totals, after exactly
these calls. Otherwise the first fault is the outcome, and the call that gave it the last one.
The log shows the calls, whatever it held before, and no count overflows on the way. -/
theorem sample_tallies_results (sampler : Act σ Int64) (n : UInt64) (s : σ)
    (log : List (Except Fault Int64)) :
    (∀ totals : List Int64, sampler.results n.toNat s = totals.map .ok →
      let tallied := Sample.empty.recordAll totals
      sample sampler n s = (.ok tallied, sampler.after n.toNat s) ∧
      sample sampler.logged n (s, log) =
        (.ok tallied, sampler.after n.toNat s, log ++ totals.map .ok) ∧
      tallied.len = n ∧ (∀ total, (tallied.count total).toNat = totals.count total) ∧
      Sample.NoOverflow totals) ∧
    (∀ (totals : List Int64) (fault : Fault) (rest : List (Except Fault Int64)),
      sampler.results n.toNat s = totals.map .ok ++ .error fault :: rest →
      sample sampler n s = (.error fault, sampler.after (totals.length + 1) s) ∧
      sample sampler.logged n (s, log) = (.error fault,
        sampler.after (totals.length + 1) s, log ++ (totals.map .ok ++ [.error fault])) ∧
      totals.length < n.toNat ∧ Sample.NoOverflow totals) ∧
    ((∃ totals : List Int64, sampler.results n.toNat s = totals.map .ok) ∨
      ∃ (totals : List Int64) (fault : Fault) (rest : List (Except Fault Int64)),
        sampler.results n.toNat s = totals.map .ok ++ .error fault :: rest) := by
  have calls := sampler.length_results n.toNat s
  have bound : n.toNat < UInt64.size := n.toNat_lt
  refine ⟨fun totals h => ?_, fun totals fault rest h => ?_, exists_eq_map_ok_or _⟩
  · rw [h, List.length_map] at calls
    have counts := Sample.counts_recordAll totals
    have few : totals.length < UInt64.size := by omega
    refine ⟨sampleInto_of_results h _, ?_, ?_, counts.toNat_count few, Sample.noOverflow few⟩
    · rw [← h, ← after_logged]
      exact sampleInto_of_results ((results_logged ..).trans h) _
    · rw [← UInt64.toNat_inj, counts.toNat_len few, calls]
  · rw [h, List.length_append, List.length_map, List.length_cons] at calls
    refine ⟨sampleInto_of_results_error h _, ?_, by omega, Sample.noOverflow (by omega)⟩
    have first : sampler.results (totals.length + 1) s = totals.map .ok ++ [.error fault] := by
      rw [List.append_cons] at h
      simpa using results_of_append h
    rw [← first, ← after_logged]
    exact sampleInto_of_results_error ((results_logged ..).trans h) _

/-- A sampler that reads its results from a script, and fails at its end. -/
def scripted : Act (List (Except Fault α)) α := fun script =>
  (script.headD (.error .noRolls), script.tail)

/-- Two totals, and a run that is longer and meets a fault after them. -/
theorem sample_tallies_results_of_script :
    let script : List (Except Fault Int64) := [.ok 3, .ok (-1), .error .noRolls, .ok 5]
    scripted.results 2 script = [3, -1].map .ok ∧
    scripted.results 4 script = [3, -1].map .ok ++ .error .noRolls :: [.ok 5] ∧
    sample scripted 2 script =
      (.ok (Sample.empty.recordAll [3, -1]), [.error .noRolls, .ok 5]) ∧
    sample scripted.logged 4 (script, []) =
      (.error .noRolls, [.ok 5], [.ok 3, .ok (-1), .error .noRolls]) := by
  have two : scripted.results 2 ([.ok 3, .ok (-1), .error .noRolls, .ok 5] :
      List (Except Fault Int64)) = [3, -1].map .ok := rfl
  have four : scripted.results 4 ([.ok 3, .ok (-1), .error .noRolls, .ok 5] :
      List (Except Fault Int64)) = [3, -1].map .ok ++ .error .noRolls :: [.ok 5] := rfl
  exact ⟨two, four, ((sample_tallies_results scripted 2 _ []).1 _ two).1,
    ((sample_tallies_results scripted 4 _ []).2.1 _ _ _ four).2.1⟩

end Act

end DiceSampling
