/-
# Runs and their positions

The generator of a notation is a fork of the main one, and how far the main one has
come depends on the position of the notation alone: each fork takes eight words, and
sampling takes none.  So two runs from one seed agree at a position where they read
the same dice.
-/

import DiceSampling.Main
import DiceSampling.Proofs.Sampling
import Mathlib.Logic.Function.Iterate

namespace DiceSampling

namespace Generator

/-- The generator that the notation at a position samples from. -/
def child (g : Generator) (k : ℕ) : Generator := ((fun g => g.fork.2)^[k] g).fork.1

/-- After some forks a generator has gone on by eight words for each. -/
theorem iterate_fork_snd (g : Generator) (k : ℕ) :
    (fun g => g.fork.2)^[k] g = after g.key (g.taken + 8 * k) := by
  induction k generalizing g with
  | zero =>
      rw [Function.iterate_zero_apply]
      apply ext_of_place
      · rw [key_after]
      · rw [taken_after, Nat.mul_zero, Nat.add_zero]
  | succ k ih =>
      rw [Function.iterate_succ_apply, ih, fork_snd, key_after, taken_after, Nat.add_assoc]
      congr 2
      omega

/-- A position fixes its generator by a place in the stream of the key. -/
theorem child_eq (g : Generator) (k : ℕ) :
    g.child k = (after g.key (g.taken + 8 * k)).fork.1 := by
  rw [child, iterate_fork_snd]

end Generator

namespace Command

/-- A run with a seed starts from the generator of the seed. -/
theorem mainGenerator_of_seed {options : Options} {seed : UInt64} (h : options.seed = some seed) :
    mainGenerator options = pure (.ofSeed seed) := by
  rw [mainGenerator, h]

end Command

namespace Program

variable {options o₁ o₂ : Options}

/-- What is read at a position depends on the notation there. -/
theorem specs_getElem? {notations : List String} {specs : List (String × Spec)}
    (h : Program.specs notations = .ok specs) {k : ℕ} {text : String} {spec : Spec}
    (at_k : notations[k]? = some text) (reads : Notation.read text = .ok spec) :
    specs[k]? = some (text, spec) := by
  unfold Program.specs at h
  induction notations generalizing specs k with
  | nil => cases at_k
  | cons first notations ih =>
      rw [List.mapM_cons] at h
      cases readsFirst : Notation.read first with
      | error cause =>
          rw [readsFirst] at h
          cases h
      | ok firstSpec =>
          rw [readsFirst] at h
          cases others : notations.mapM fun text =>
              return (text, ← (Notation.read text).mapError (Failure.unreadable text)) with
          | error failure =>
              rw [others] at h
              cases h
          | ok rest =>
              rw [others] at h
              cases h
              cases k with
              | zero =>
                  cases at_k
                  rw [readsFirst] at reads
                  cases reads
                  rfl
              | succ k => exact ih others at_k

/-- A step of a run: one sample from a fork, and the others from the generator after it. -/
theorem sampleAll_cons {g : Generator} {title : String} {spec : Spec}
    {specs : List (String × Spec)}
    (ends : (sampleAll options g ((title, spec) :: specs)).failure = none) :
    ∃ sample, Program.sample options spec g.fork.1 = .ok sample ∧
      sampleAll options g ((title, spec) :: specs) =
        (sampleAll options g.fork.2 specs).cons ⟨title, spec, sample⟩ := by
  rw [sampleAll] at ends ⊢
  cases h : Program.sample options spec g.fork.1 with
  | error fault =>
      rw [h] at ends
      cases ends
  | ok sample => exact ⟨sample, rfl, rfl⟩

/-- Each position of a run that ends well has the sample of its own generator. -/
theorem sampleAll_getElem? {g : Generator} {specs : List (String × Spec)}
    (ends : (sampleAll options g specs).failure = none) {k : ℕ} {title : String} {spec : Spec}
    (at_k : specs[k]? = some (title, spec)) :
    ∃ sample, Program.sample options spec (g.child k) = .ok sample ∧
      (sampleAll options g specs).entries[k]? = some ⟨title, spec, sample⟩ := by
  induction specs generalizing g k with
  | nil => cases at_k
  | cons head specs ih =>
      obtain ⟨title', spec'⟩ := head
      obtain ⟨sample, first, step⟩ := sampleAll_cons ends
      rw [step] at ends ⊢
      cases k with
      | zero =>
          cases at_k
          exact ⟨sample, first, rfl⟩
      | succ k => exact ih ends at_k

theorem run_getElem? {g : Generator} (ends : (run options g).failure = none) {k : ℕ}
    {text : String} {spec : Spec} (at_k : options.notations[k]? = some text)
    (reads : Notation.read text = .ok spec) :
    ∃ sample, Program.sample options spec (g.child k) = .ok sample ∧
      (run options g).entries[k]? = some ⟨text, spec, sample⟩ := by
  unfold run at ends ⊢
  cases h : Program.specs options.notations with
  | error failure =>
      rw [h] at ends
      cases ends
  | ok specs =>
      rw [h] at ends
      exact sampleAll_getElem? ends (specs_getElem? h at_k reads)

section TwoRuns

variable (bonus : o₁.bonus = o₂.bonus) (edge : o₁.edge = o₂.edge)
include bonus edge

theorem total_congr {σ : Type} (roll : Roll σ) : o₁.total roll = o₂.total roll := by
  unfold Options.total Options.operands
  rw [bonus, edge]

theorem sample_congr (samples : o₁.samples = o₂.samples) (spec : Spec) (g : Generator) :
    Program.sample o₁ spec g = Program.sample o₂ spec g := by
  unfold Program.sample
  rw [total_congr bonus edge, samples]

/-- A sample of more draws from the same generator has no tally that is lower. -/
theorem count_le_count (samples : o₁.samples ≤ o₂.samples) {spec : Spec} {g : Generator}
    {sample₁ sample₂ : Sample} (first : Program.sample o₁ spec g = .ok sample₁)
    (second : Program.sample o₂ spec g = .ok sample₂) (total : Int64) :
    sample₁.count total ≤ sample₂.count total := by
  unfold Program.sample Act.sample at first second
  rw [← total_congr bonus edge] at second
  obtain ⟨more, hmore⟩ := Nat.exists_eq_add_of_le (UInt64.le_iff_toNat_le.mp samples)
  have room := o₂.samples.toNat_lt_size
  generalize o₁.total (Roll.plain spec Generator.source) = sampler at first second
  obtain ⟨g', hfirst⟩ : ∃ g', Act.sampleInto sampler o₁.samples.toNat .empty g =
      (.ok sample₁, g') := ⟨_, Prod.ext first rfl⟩
  rw [hmore, Act.sampleInto_add, Act.bind_apply, hfirst] at second
  have hrest : Act.sampleInto sampler more sample₁ g' =
      (.ok sample₂, (Act.sampleInto sampler more sample₁ g').2) := Prod.ext second rfl
  have uncounted := Sample.count_empty total
  obtain ⟨-, upper⟩ := Act.count_sampleInto hfirst total (by
    rw [uncounted, UInt64.toNat_zero]
    omega)
  rw [uncounted, UInt64.toNat_zero] at upper
  rw [UInt64.le_iff_toNat_le]
  exact (Act.count_sampleInto hrest total (by omega)).1

end TwoRuns

/-- Two runs from one seed under the same bonus and edge, both of which end well, have the same
distribution where they read the same dice, if they take as many samples; if the second takes
more, none of its tallies there is lower. The other notations, the width and the report make no
difference. -/
theorem run_position_stable (seed : UInt64) (bonus : o₁.bonus = o₂.bonus)
    (edge : o₁.edge = o₂.edge) (ends₁ : (run o₁ (.ofSeed seed)).failure = none)
    (ends₂ : (run o₂ (.ofSeed seed)).failure = none) {k : ℕ} {text₁ text₂ : String} {spec : Spec}
    (at₁ : o₁.notations[k]? = some text₁) (reads₁ : Notation.read text₁ = .ok spec)
    (at₂ : o₂.notations[k]? = some text₂) (reads₂ : Notation.read text₂ = .ok spec) :
    ∃ entry₁ entry₂, (run o₁ (.ofSeed seed)).entries[k]? = some entry₁ ∧
      (run o₂ (.ofSeed seed)).entries[k]? = some entry₂ ∧
      (o₁.samples = o₂.samples → entry₁.sample = entry₂.sample ∧
        { entry₁.distribution o₁ with title := text₂ } = entry₂.distribution o₂) ∧
      (o₁.samples ≤ o₂.samples → ∀ total,
        entry₁.sample.count total ≤ entry₂.sample.count total) := by
  obtain ⟨sample₁, first, entry₁⟩ := run_getElem? ends₁ at₁ reads₁
  obtain ⟨sample₂, second, entry₂⟩ := run_getElem? ends₂ at₂ reads₂
  refine ⟨_, _, entry₁, entry₂, ?_, ?_⟩
  · intro samples
    rw [sample_congr bonus edge samples, second, Except.ok.injEq] at first
    subst first
    refine ⟨rfl, ?_⟩
    have expected : o₁.expected spec = o₂.expected spec := by
      unfold Options.expected
      rw [bonus, edge]
    unfold Entry.distribution
    dsimp only
    rw [expected]
  · intro samples total
    exact count_le_count bonus edge samples first second total

/-- Two runs with the seed seven that share the dice at their second position. -/
theorem run_position_stable_of_second_position :
    ∃ entry₁ entry₂,
      (run { notations := ["1d6", "2d4"], samples := 1 } (.ofSeed 7)).entries[1]? =
        some entry₁ ∧
      (run { notations := ["3d8", "02d4", "1d1"], samples := 3, width := 20 }
        (.ofSeed 7)).entries[1]? = some entry₂ ∧
      ∀ total, entry₁.sample.count total ≤ entry₂.sample.count total := by
  have ends₁ : (run { notations := ["1d6", "2d4"], samples := 1 } (.ofSeed 7)).failure = none := by
    decide +kernel
  have ends₂ : (run { notations := ["3d8", "02d4", "1d1"], samples := 3, width := 20 }
      (.ofSeed 7)).failure = none := by
    decide +kernel
  have reads₁ : Notation.read "2d4" = .ok ⟨2, 4⟩ := by decide
  have reads₂ : Notation.read "02d4" = .ok ⟨2, 4⟩ := by decide
  obtain ⟨entry₁, entry₂, at₁, at₂, -, grows⟩ :=
    @run_position_stable { notations := ["1d6", "2d4"], samples := 1 }
      { notations := ["3d8", "02d4", "1d1"], samples := 3, width := 20 } 7 rfl rfl ends₁ ends₂
      1 "2d4" "02d4" ⟨2, 4⟩ rfl reads₁ rfl reads₂
  exact ⟨entry₁, entry₂, at₁, at₂, grows (by decide)⟩

end Program

end DiceSampling
