/-
# The total of a pool and its faces

Summing a pool and showing its faces are two loops over one source.  From any state
they take the same values and leave the same state, whatever floats the source gives,
and the total is the exact sum of the faces held within 64 bits.  A log kept beside the
state shows how many values were taken, and from which source.
-/

import DiceSampling.Proofs.Faces

namespace DiceSampling

variable {σ ι : Type}

namespace Source

/-- The source that writes a name into a log with each value it gives. -/
def logged (source : Source σ) (name : ι) : Source (σ × List ι) where
  label := source.label
  next := fun (s, log) => ((source.next s).1, (source.next s).2, log ++ [name])

/-- A log changes neither the values nor the state, and has one more name for each value. -/
theorem values_logged (source : Source σ) (name : ι) (n : ℕ) (s : σ) (log : List ι) :
    (source.logged name).values n (s, log) =
      ((source.values n s).1, (source.values n s).2, log ++ List.replicate n name) := by
  induction n generalizing s log with
  | zero => exact congrArg (fun log => ([], s, log)) (List.append_nil log).symm
  | succ n ih =>
      have first : (source.logged name).next (s, log) =
          ((source.next s).1, (source.next s).2, log ++ [name]) := rfl
      rw [values_succ, values_succ, first, ih, List.append_assoc, List.replicate_succ,
        List.singleton_append]

end Source

namespace Dice

theorem faces_of_count_eq_zero (source : Source σ) {spec : Spec} (h : spec.count = 0) (s : σ) :
    faces source spec s = ([], s) := by
  rw [faces_eq, h]
  rfl

/-- The faces over a logged source are those over the source, with a name for each die. -/
theorem faces_logged (source : Source σ) (name : ι) (spec : Spec) (s : σ) (log : List ι) :
    faces (source.logged name) spec (s, log) =
      ((faces source spec s).1, (faces source spec s).2,
        log ++ List.replicate spec.count.toNat name) := by
  rw [faces_eq, faces_eq, Source.values_logged]

/-- Summing a pool leaves the state that showing its faces does, also if it has no dice. -/
theorem total_snd (source : Source σ) (spec : Spec) (s : σ) :
    (total source spec s).2 = (faces source spec s).2 := by
  by_cases noDice : spec.count = 0
  · rw [total_of_count_eq_zero source noDice, faces_of_count_eq_zero source noDice]
    rfl
  · rw [total_eq source noDice]

/-- The total over a logged source is that over the source, with a name for each die, also if
there are none. -/
theorem total_logged (source : Source σ) (name : ι) (spec : Spec) (s : σ) (log : List ι) :
    total (source.logged name) spec (s, log) =
      ((total source spec s).1, (total source spec s).2,
        log ++ List.replicate spec.count.toNat name) := by
  by_cases noDice : spec.count = 0
  · rw [total_of_count_eq_zero _ noDice, total_of_count_eq_zero _ noDice, noDice]
    exact congrArg (fun log => (Except.error _, s, log)) (List.append_nil log).symm
  · rw [total_eq _ noDice, total_eq _ noDice, faces_logged]

theorem toInt_foldl_addFace_zero (faces : List UInt32) :
    (faces.foldl addFace 0).toInt =
      min Int64.maxValue.toInt ((faces.map UInt32.toNat).sum : ℤ) := by
  rw [toInt_foldl_addFace, Int64.toInt_zero, zero_add]

end Dice

/-- From any state of any source the total of a pool is the exact sum, held within 64 bits, of
the faces that the same state leads to; a pool of no dice is a fault and has no faces. Both
leave the same state, and a log of the source gets one name for each die. -/
theorem Roll.total_plain_eq_sum_faces (spec : Spec) (source : Source σ) (s : σ) :
    (spec.count ≠ 0 → ∃ total,
      (plain spec source).total s = (.ok total, ((plain spec source).faces s).2) ∧
      total.toInt =
        min Int64.maxValue.toInt ((((plain spec source).faces s).1.map UInt32.toNat).sum : ℤ)) ∧
    (spec.count = 0 →
      (plain spec source).total s = (.error (.nonPositiveCount 0), s) ∧
      (plain spec source).faces s = ([], s)) ∧
    ∀ (name : ι) (log : List ι),
      ((plain spec (source.logged name)).total (s, log)).2 =
        (((plain spec source).faces s).2, log ++ List.replicate spec.count.toNat name) ∧
      (plain spec (source.logged name)).faces (s, log) =
        (((plain spec source).faces s).1, ((plain spec source).faces s).2,
          log ++ List.replicate spec.count.toNat name) := by
  refine ⟨fun dice => ?_, fun noDice => ?_, fun name log => ?_⟩
  · exact ⟨_, Dice.total_eq source dice s, Dice.toInt_foldl_addFace_zero _⟩
  · refine ⟨?_, Dice.faces_of_count_eq_zero source noDice s⟩
    rw [total_plain, Dice.total_of_count_eq_zero source noDice]
    rfl
  · refine ⟨?_, Dice.faces_logged source name spec s log⟩
    rw [total_plain, Dice.total_snd, Dice.faces_logged]
    rfl

end DiceSampling
