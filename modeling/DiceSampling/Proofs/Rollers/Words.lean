/-
# The words that a run takes

A step moves the generator that it names along its own stream, by two words for each value and
by eight for a fork, and touches no other generator.  So at every point of a run the place of a
generator is known from the steps that have named it, and a generator that a fork has added
stands at the start of its stream.
-/

import DiceSampling.Proofs.PoolTotals
import DiceSampling.Rollers

namespace DiceSampling

variable {σ : Type}

/-- The number of dice that an input names; none if it cannot be read. -/
def Input.dice (named : Input) : ℕ :=
  match named.read with
  | .ok found => found.count.toNat
  | .error _ => 0

namespace Dice

theorem total_snd_eq_values (source : Source σ) (spec : Spec) (s : σ) :
    (total source spec s).2 = (source.values spec.count.toNat s).2 := by
  rw [total_snd, faces_eq]

/-- Rolling a name takes one value for each die that it names. -/
theorem totalOfInput_snd (source : Source σ) (named : Input) (s : σ) :
    (totalOfInput source named s).2 = (source.values named.dice s).2 := by
  unfold totalOfInput Input.dice
  cases named.read with
  | error fault => rfl
  | ok spec => exact total_snd_eq_values source spec s

end Dice

namespace Generator

theorem after_taken (g : Generator) : after g.key g.taken = g := by
  apply ext_of_place
  · rw [key_after]
  · rw [taken_after]

/-- Values move the place by two words each. -/
theorem values_snd (g : Generator) (n : ℕ) :
    (source.values n g).2 = after g.key (g.taken + 2 * n) := by
  induction n generalizing g with
  | zero => exact (after_taken g).symm
  | succ n ih =>
      have next : (source.next g).2 = after g.key (g.taken + 2) := value_snd g
      rw [Source.values_succ, next, ih, key_after, taken_after, Nat.mul_succ, Nat.add_assoc,
        Nat.add_comm 2]

end Generator

namespace Rollers

namespace Step

/-- Whether a step adds a generator. -/
def isFork : Step → Bool
  | fork _ => true
  | _ => false

/-- The number of values that a step takes. -/
def draws : Step → ℕ
  | value _ => 1
  | skip _ n => n
  | fork _ => 0
  | face _ _ => 1
  | total _ spec => spec.count.toNat
  | input _ named => named.dice

/-- The number of words that a step takes. -/
def words (s : Step) : ℕ := 2 * s.draws + 8 * s.isFork.toNat

end Step

theorem skip_eq (n : ℕ) (g : Generator) : skip n g = (Generator.source.values n g).2 := by
  induction n generalizing g with
  | zero => rfl
  | succ n ih =>
      rw [skip, ih, Source.values_succ]
      rfl

section Act

variable (size : ℕ) (g : Generator) {s : Step}

/-- A step that is no fork takes its values, one after the other, and nothing else. -/
theorem act_of_not_isFork (plain : s.isFork = false) :
    (act size g s).2 = ((Generator.source.values s.draws g).2, none) := by
  cases s with
  | value i => rfl
  | skip i n => exact congrArg (·, none) (skip_eq n g)
  | fork i => cases plain
  | face i sides => rfl
  | total i spec => exact congrArg (·, none) (Dice.total_snd_eq_values _ spec g)
  | input i named => exact congrArg (·, none) (Dice.totalOfInput_snd _ named g)

/-- What a step shows depends on the number of generators only if it is a fork. -/
theorem act_fst_congr (plain : s.isFork = false) (size' : ℕ) :
    (act size g s).1 = (act size' g s).1 := by
  cases s with
  | fork i => cases plain
  | _ => rfl

/-- The generator that a step adds. -/
def added (s : Step) : Option Generator := if s.isFork then some g.fork.1 else none

theorem added_of_not_isFork (plain : s.isFork = false) : added g s = none := by
  rw [added, plain]
  rfl

/-- A fork shows the place of the generator that it adds. -/
theorem act_fst_of_isFork (fork : s.isFork = true) : (act size g s).1 = .forked size := by
  cases s with
  | fork i => rfl
  | _ => cases fork

theorem length_toList_added (s : Step) : (added g s).toList.length = s.isFork.toNat := by
  unfold added
  cases s.isFork <;> rfl

/-- A step moves its generator along the stream by the words that it takes. -/
theorem act_snd (s : Step) :
    (act size g s).2 = (.after g.key (g.taken + s.words), added g s) := by
  cases plain : s.isFork with
  | false =>
      rw [act_of_not_isFork size g plain, Generator.values_snd, Step.words, plain,
        added_of_not_isFork g plain]
      rfl
  | true =>
      cases s with
      | fork i => exact congrArg (·, some g.fork.1) (Generator.fork_snd g)
      | _ => cases plain

end Act

/-- A run that names no generator before it is there.  At first there are `size` of them. -/
def Placed : ℕ → List Step → Prop
  | _, [] => True
  | size, s :: rest => s.place < size ∧ Placed (size + s.isFork.toNat) rest

theorem countP_isFork_cons (s : Step) (steps : List Step) :
    (s :: steps).countP Step.isFork = s.isFork.toNat + steps.countP Step.isFork := by
  rw [List.countP_cons]
  cases s.isFork <;> simp [Nat.add_comm]

/-- A run can be cut in two anywhere. -/
theorem placed_append {size : ℕ} {first rest : List Step} :
    Placed size (first ++ rest) ↔
      Placed size first ∧ Placed (size + first.countP Step.isFork) rest := by
  induction first generalizing size with
  | nil => exact (iff_of_eq (true_and _)).symm
  | cons s first ih =>
      rw [List.cons_append, Placed, Placed, ih, countP_isFork_cons, and_assoc, Nat.add_assoc]

theorem run_cons (s : Step) (steps : List Step) (rollers : List Generator) :
    run (s :: steps) rollers =
      ((step s rollers).1 :: (run steps (step s rollers).2).1,
        (run steps (step s rollers).2).2) := rfl

theorem run_append (first rest : List Step) (rollers : List Generator) :
    run (first ++ rest) rollers =
      ((run first rollers).1 ++ (run rest (run first rollers).2).1,
        (run rest (run first rollers).2).2) := by
  induction first generalizing rollers with
  | nil => rfl
  | cons s first ih =>
      rw [List.cons_append, run_cons, run_cons, ih, List.cons_append]

variable {rollers : List Generator} {g : Generator} {s : Step} {steps : List Step} {i : ℕ}

/-- A step with a generator that is there. -/
theorem step_eq (here : rollers[s.place]? = some g) :
    step s rollers =
      ((act rollers.length g s).1,
        rollers.set s.place (.after g.key (g.taken + s.words)) ++ (added g s).toList) := by
  have left := act_snd rollers.length g s
  unfold step
  rw [here]
  dsimp only
  generalize act rollers.length g s = result at left ⊢
  obtain ⟨answer, moved, added⟩ := result
  cases left
  rfl

theorem length_step (placed : s.place < rollers.length) :
    (step s rollers).2.length = rollers.length + s.isFork.toNat := by
  rw [step_eq (List.getElem?_eq_getElem placed), List.length_append, List.length_set,
    length_toList_added]

theorem length_run (placed : Placed rollers.length steps) :
    (run steps rollers).2.length = rollers.length + steps.countP Step.isFork := by
  induction steps generalizing rollers with
  | nil => rfl
  | cons s steps ih =>
      obtain ⟨here, later⟩ := placed
      rw [← length_step here] at later
      rw [run_cons, ih later, length_step here, countP_isFork_cons, Nat.add_assoc]

/-- The number of values that the steps with a generator take. -/
def drawsAt (i : ℕ) (steps : List Step) : ℕ :=
  ((steps.filter (·.place = i)).map Step.draws).sum

/-- The number of forks of a generator. -/
def forksAt (i : ℕ) (steps : List Step) : ℕ := (steps.filter (·.place = i)).countP Step.isFork

/-- The number of words that the steps with a generator take. -/
def wordsAt (i : ℕ) (steps : List Step) : ℕ := 2 * drawsAt i steps + 8 * forksAt i steps

theorem wordsAt_cons (i : ℕ) (s : Step) (steps : List Step) :
    wordsAt i (s :: steps) = (if s.place = i then s.words else 0) + wordsAt i steps := by
  unfold wordsAt drawsAt forksAt
  rw [List.filter_cons]
  by_cases same : s.place = i
  · rw [if_pos (decide_eq_true same), if_pos same, List.map_cons, List.sum_cons,
      countP_isFork_cons, Step.words]
    omega
  · rw [if_neg (by simpa using same), if_neg same, Nat.zero_add]

theorem wordsAt_append (i : ℕ) (first rest : List Step) :
    wordsAt i (first ++ rest) = wordsAt i first + wordsAt i rest := by
  induction first with
  | nil => exact (Nat.zero_add _).symm
  | cons s first ih => rw [List.cons_append, wordsAt_cons, wordsAt_cons, ih, Nat.add_assoc]

/-- A step moves the generator that it names, and leaves the others where they are. -/
theorem getElem?_step (placed : s.place < rollers.length) (there : rollers[i]? = some g) :
    (step s rollers).2[i]? =
      some (.after g.key (g.taken + if s.place = i then s.words else 0)) := by
  have bound : i < rollers.length := (List.getElem?_eq_some_iff.mp there).1
  rw [step_eq (List.getElem?_eq_getElem placed),
    List.getElem?_append_left (by rwa [List.length_set]), List.getElem?_set]
  by_cases same : s.place = i
  · subst same
    rw [List.getElem?_eq_getElem placed, Option.some.injEq] at there
    rw [if_pos rfl, if_pos placed, if_pos rfl, there]
  · rw [if_neg same, if_neg same, there, Nat.add_zero, Generator.after_taken]

/-- A run moves a generator by the words that the steps with it take. -/
theorem getElem?_run (placed : Placed rollers.length steps) (there : rollers[i]? = some g) :
    (run steps rollers).2[i]? = some (.after g.key (g.taken + wordsAt i steps)) := by
  induction steps generalizing rollers g with
  | nil => exact there.trans (congrArg some (Generator.after_taken g).symm)
  | cons s steps ih =>
      obtain ⟨here, later⟩ := placed
      rw [← length_step here] at later
      rw [run_cons, wordsAt_cons]
      refine (ih later (getElem?_step here there)).trans ?_
      rw [Generator.key_after, Generator.taken_after, Nat.add_assoc]

/-- A generator that a step adds stands at the start of its stream. -/
theorem taken_of_step (placed : s.place < rollers.length)
    (there : (step s rollers).2[rollers.length]? = some g) : g.taken = 0 := by
  rw [step_eq (List.getElem?_eq_getElem placed),
    List.getElem?_append_right (by rw [List.length_set]), List.length_set, Nat.sub_self] at there
  unfold added at there
  split at there
  · cases there
    rfl
  · cases there

/-- A generator that a run adds has taken the words of the steps with it. -/
theorem taken_run_of_le (placed : Placed rollers.length steps) (new : rollers.length ≤ i)
    (there : (run steps rollers).2[i]? = some g) : g.taken = wordsAt i steps := by
  induction steps generalizing rollers with
  | nil =>
      rw [run, List.getElem?_eq_none new] at there
      cases there
  | cons s steps ih =>
      obtain ⟨here, later⟩ := placed
      rw [← length_step here] at later
      rw [wordsAt_cons, if_neg (Nat.ne_of_lt (Nat.lt_of_lt_of_le here new)), Nat.zero_add]
      by_cases old : (step s rollers).2.length ≤ i
      · exact ih later old there
      · -- the step adds the generator, and the later steps find it at its start
        have place : i = rollers.length := by
          have grown := length_step here
          have bit := Bool.toNat_le s.isFork
          omega
        subst place
        obtain ⟨child, found⟩ : ∃ child, (step s rollers).2[rollers.length]? = some child :=
          ⟨_, List.getElem?_eq_getElem (Nat.lt_of_not_le old)⟩
        have moved := getElem?_run later found
        rw [taken_of_step here found, Nat.zero_add] at moved
        cases there.symm.trans moved
        rfl

/-- In a run from one generator at its start, each has taken the words of the steps with it. -/
theorem taken_run {seed : Generator} (start : seed.taken = 0) (placed : Placed 1 steps)
    (there : (run steps [seed]).2[i]? = some g) : g.taken = wordsAt i steps := by
  have placed : Placed [seed].length steps := placed
  by_cases new : [seed].length ≤ i
  · exact taken_run_of_le placed new there
  · obtain rfl : i = 0 := Nat.lt_one_iff.mp (Nat.lt_of_not_le new)
    have first : [seed][0]? = some seed := rfl
    have moved := getElem?_run placed first
    rw [start, Nat.zero_add] at moved
    cases there.symm.trans moved
    rfl

end Rollers

end DiceSampling
