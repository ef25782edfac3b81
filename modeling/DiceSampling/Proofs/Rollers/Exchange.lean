/-
# Runs with neighbouring steps exchanged

Two neighbouring steps with different generators can change places, unless the first of them
adds the generator of the second.  No answer and no generator is different, as neither step
looks at the generator of the other.  Two forks give their new generators the next two numbers
in the other order; so if both steps are forks, the later steps have to name the two numbers
the other way round, and what is shown and left is the same up to these numbers.
-/

import DiceSampling.Proofs.Rollers.Words
import Mathlib.Logic.Equiv.Basic

namespace DiceSampling.Rollers

/-- A step with the generator at another place. -/
def Step.renumber (π : Equiv.Perm ℕ) : Step → Step
  | value i => value (π i)
  | skip i n => skip (π i) n
  | fork i => fork (π i)
  | face i sides => face (π i) sides
  | total i spec => total (π i) spec
  | input i named => input (π i) named

/-- An answer that names another place. -/
def Answer.renumber (π : Equiv.Perm ℕ) : Answer → Answer
  | forked place => forked (π place)
  | answer => answer

/-- The exchange of a place and the next one. -/
def swapAt (size : ℕ) : Equiv.Perm ℕ := Equiv.swap size (size + 1)

section SwapAt

variable {size i : ℕ}

@[simp] theorem swapAt_self (size : ℕ) : swapAt size size = size + 1 :=
  Equiv.swap_apply_left _ _

@[simp] theorem swapAt_succ (size : ℕ) : swapAt size (size + 1) = size :=
  Equiv.swap_apply_right _ _

theorem swapAt_of_lt (before : i < size) : swapAt size i = i :=
  Equiv.swap_apply_of_ne_of_ne (Nat.ne_of_lt before) (Nat.ne_of_lt (Nat.lt_succ_of_lt before))

theorem swapAt_of_le (beyond : size + 2 ≤ i) : swapAt size i = i :=
  Equiv.swap_apply_of_ne_of_ne (by omega) (by omega)

end SwapAt

/-- Two lists of the same generators at other places.  What a step adds to them gets the same
place in both. -/
structure Renumbered (π : Equiv.Perm ℕ) (rollers rollers' : List Generator) : Prop where
  length_eq : rollers'.length = rollers.length
  getElem?_eq (i : ℕ) : rollers'[π i]? = rollers[i]?
  fixed {i : ℕ} : rollers.length ≤ i → π i = i

section Renumber

variable {π : Equiv.Perm ℕ} {rollers rollers' : List Generator} {s : Step} {steps : List Step}

@[simp] theorem place_renumber (s : Step) : (s.renumber π).place = π s.place := by
  cases s <;> rfl

@[simp] theorem isFork_renumber (s : Step) : (s.renumber π).isFork = s.isFork := by
  cases s <;> rfl

@[simp] theorem words_renumber (s : Step) : (s.renumber π).words = s.words := by
  cases s <;> rfl

theorem act_renumber (size : ℕ) (g : Generator) (s : Step) :
    act size g (s.renumber π) = act size g s := by
  cases s <;> rfl

theorem added_renumber (g : Generator) (s : Step) : added g (s.renumber π) = added g s := by
  rw [added, added, isFork_renumber]

/-- Only the place of a new generator is named in an answer. -/
theorem renumber_act {size : ℕ} (fixed : π size = size) (g : Generator) (s : Step) :
    (act size g s).1.renumber π = (act size g s).1 := by
  cases s with
  | fork i => exact congrArg Answer.forked fixed
  | _ => rfl

namespace Renumbered

theorem lt_length_iff (same : Renumbered π rollers rollers') {i : ℕ} :
    π i < rollers.length ↔ i < rollers.length := by
  constructor
  · intro small
    by_contra large
    rw [same.fixed (Nat.le_of_not_lt large)] at small
    exact large small
  · intro small
    by_contra large
    rw [π.injective (same.fixed (Nat.le_of_not_lt large))] at large
    exact large small

/-- A step and the step with the same generator at its other place. -/
theorem step (same : Renumbered π rollers rollers') (placed : s.place < rollers.length) :
    (Rollers.step (s.renumber π) rollers').1 = (Rollers.step s rollers).1.renumber π ∧
      Renumbered π (Rollers.step s rollers).2 (Rollers.step (s.renumber π) rollers').2 := by
  have here := List.getElem?_eq_getElem placed
  have there : rollers'[(s.renumber π).place]? = some rollers[s.place] := by
    rw [place_renumber, same.getElem?_eq, here]
  rw [step_eq here, step_eq there, act_renumber, added_renumber, words_renumber, place_renumber,
    same.length_eq]
  refine ⟨(renumber_act (same.fixed le_rfl) _ s).symm, ?_, fun i => ?_, fun {i} large => ?_⟩
  · rw [List.length_append, List.length_append, List.length_set, List.length_set, same.length_eq]
  · rw [List.getElem?_append, List.getElem?_append, List.length_set, List.length_set,
      same.length_eq]
    by_cases small : i < rollers.length
    · rw [if_pos (same.lt_length_iff.mpr small), if_pos small, List.getElem?_set,
        List.getElem?_set, same.getElem?_eq, same.length_eq]
      simp only [π.injective.eq_iff, same.lt_length_iff]
    · rw [if_neg (same.lt_length_iff.not.mpr small), if_neg small,
        same.fixed (Nat.le_of_not_lt small)]
  · rw [List.length_append, List.length_set] at large
    exact same.fixed (Nat.le_of_add_right_le large)

/-- A run and the run with the same generators at their other places. -/
theorem run (same : Renumbered π rollers rollers') (placed : Placed rollers.length steps) :
    (Rollers.run (steps.map (Step.renumber π)) rollers').1 =
        (Rollers.run steps rollers).1.map (Answer.renumber π) ∧
      Renumbered π (Rollers.run steps rollers).2
        (Rollers.run (steps.map (Step.renumber π)) rollers').2 := by
  induction steps generalizing rollers rollers' with
  | nil => exact ⟨rfl, same⟩
  | cons s steps ih =>
      obtain ⟨here, later⟩ := placed
      rw [← length_step here] at later
      obtain ⟨answer, same⟩ := same.step here
      obtain ⟨answers, same⟩ := ih same later
      rw [List.map_cons, run_cons, run_cons, answer, answers, List.map_cons]
      exact ⟨rfl, same⟩

/-- Two generators at the end that have changed places. -/
theorem swap_last (rollers : List Generator) (g h : Generator) :
    Renumbered (swapAt rollers.length) (rollers ++ [g, h]) (rollers ++ [h, g]) where
  length_eq := by simp
  getElem?_eq i := by
    rcases Nat.lt_trichotomy i rollers.length with before | rfl | after
    · rw [swapAt_of_lt before, List.getElem?_append_left before,
        List.getElem?_append_left before]
    · simp
    · rcases Nat.eq_or_lt_of_le after with rfl | beyond
      · simp
      · rw [swapAt_of_le beyond, List.getElem?_eq_none (by simp; omega),
          List.getElem?_eq_none (by simp; omega)]
  fixed large := by
    rw [List.length_append, List.length_cons, List.length_singleton] at large
    exact swapAt_of_le large

end Renumbered

end Renumber

section Pair

variable {rollers after : List Generator} {a b : Step} {x y : Answer} {g h : Generator}

/-- Two steps with different generators, one after the other. -/
theorem run_pair (apart : a.place ≠ b.place) (first : rollers[a.place]? = some g)
    (second : rollers[b.place]? = some h) :
    run [a, b] rollers =
      ([(act rollers.length g a).1, (act (rollers.length + a.isFork.toNat) h b).1],
        (rollers.set a.place (.after g.key (g.taken + a.words))).set b.place
            (.after h.key (h.taken + b.words)) ++
          ((added g a).toList ++ (added h b).toList)) := by
  have inside : b.place < (rollers.set a.place (.after g.key (g.taken + a.words))).length := by
    rw [List.length_set]
    exact (List.getElem?_eq_some_iff.mp second).1
  have found : (rollers.set a.place (.after g.key (g.taken + a.words)) ++
      (added g a).toList)[b.place]? = some h := by
    rw [List.getElem?_append_left inside, List.getElem?_set_ne apart, second]
  rw [run_cons, run_cons, step_eq first, step_eq found, List.set_append_left _ _ inside,
    List.length_append, List.length_set, length_toList_added, List.append_assoc]
  rfl

/-- Steps of which one is no fork can change places. -/
theorem run_pair_comm (apart : a.place ≠ b.place) (first : rollers[a.place]? = some g)
    (second : rollers[b.place]? = some h) (plain : a.isFork = false ∨ b.isFork = false)
    (pair : run [a, b] rollers = ([x, y], after)) : run [b, a] rollers = ([y, x], after) := by
  rw [run_pair apart first second] at pair
  cases pair
  rw [run_pair apart.symm second first, List.set_comm _ _ apart]
  -- a step that is no fork does not look at the number of generators, and adds none
  rcases plain with plain | plain
  · have same := act_fst_congr (rollers.length + b.isFork.toNat) g plain rollers.length
    rw [same, added_of_not_isFork g plain, plain, Option.toList_none, List.append_nil,
      List.nil_append]
    rfl
  · have same := act_fst_congr (rollers.length + a.isFork.toNat) h plain rollers.length
    rw [same, added_of_not_isFork h plain, plain, Option.toList_none, List.append_nil,
      List.nil_append]
    rfl

/-- Two forks can change places if their new generators do. -/
theorem run_pair_forks (apart : a.place ≠ b.place) (first : rollers[a.place]? = some g)
    (second : rollers[b.place]? = some h) (forkA : a.isFork = true) (forkB : b.isFork = true)
    (pair : run [a, b] rollers = ([x, y], after)) :
    ∃ after',
      run [b, a] rollers =
        ([y.renumber (swapAt rollers.length), x.renumber (swapAt rollers.length)], after') ∧
      Renumbered (swapAt rollers.length) after after' := by
  have swapped := Renumbered.swap_last ((rollers.set a.place (.after g.key (g.taken + a.words))).set
    b.place (.after h.key (h.taken + b.words))) g.fork.1 h.fork.1
  rw [List.length_set, List.length_set] at swapped
  rw [run_pair apart first second, act_fst_of_isFork _ _ forkA, act_fst_of_isFork _ _ forkB,
    added, added, forkA, forkB] at pair
  cases pair
  refine ⟨_, ?_, swapped⟩
  rw [run_pair apart.symm second first, act_fst_of_isFork _ _ forkA,
    act_fst_of_isFork _ _ forkB, List.set_comm _ _ apart, added, added, forkA, forkB,
    Answer.renumber, Answer.renumber, Bool.toNat_true, swapAt_self, swapAt_succ]
  rfl

end Pair

section Exchange

variable {rollers : List Generator} {before after : List Step} {a b : Step}

/-- A run that has two steps in its middle. -/
theorem run_append_pair {earlier : List Answer} {x y : Answer} {reached middle : List Generator}
    (start : run before rollers = (earlier, reached))
    (pair : run [a, b] reached = ([x, y], middle)) (after : List Step) :
    run (before ++ a :: b :: after) rollers =
      (earlier ++ x :: y :: (run after middle).1, (run after middle).2) := by
  have steps : before ++ a :: b :: after = before ++ ([a, b] ++ after) := rfl
  rw [steps, run_append, run_append, start, pair]
  rfl

/-- What a run shows and leaves when two neighbouring steps of it change places. -/
theorem run_exchange {earlier : List Answer} {reached : List Generator}
    (start : run before rollers = (earlier, reached))
    (placed : Placed rollers.length (before ++ a :: b :: after)) (apart : a.place ≠ b.place)
    (unborn : a.isFork = true → b.place ≠ reached.length) :
    ∃ x y later left,
      run (before ++ a :: b :: after) rollers = (earlier ++ x :: y :: later, left) ∧
      (a.isFork = false ∨ b.isFork = false →
        run (before ++ b :: a :: after) rollers = (earlier ++ y :: x :: later, left)) ∧
      (a.isFork = true → b.isFork = true →
        ∃ left',
          run (before ++ b :: a :: after.map (Step.renumber (swapAt reached.length))) rollers =
            (earlier ++ y.renumber (swapAt reached.length) ::
              x.renumber (swapAt reached.length) ::
              later.map (Answer.renumber (swapAt reached.length)), left') ∧
          Renumbered (swapAt reached.length) left left') := by
  obtain ⟨placedBefore, placedA, placedB, placedAfter⟩ := placed_append.mp placed
  have size : reached.length = rollers.length + before.countP Step.isFork := by
    rw [← length_run placedBefore, start]
  rw [← size] at placedA placedB placedAfter
  have older : b.place < reached.length := by
    cases plain : a.isFork with
    | false => simpa [plain] using placedB
    | true =>
        have new := unborn plain
        rw [plain, Bool.toNat_true] at placedB
        omega
  have first := List.getElem?_eq_getElem placedA
  have second := List.getElem?_eq_getElem older
  obtain ⟨x, y, middle, pair⟩ : ∃ x y middle, run [a, b] reached = ([x, y], middle) :=
    ⟨_, _, _, run_pair apart first second⟩
  have placedMiddle : Placed middle.length after := by
    have placedPair : Placed reached.length [a, b] := ⟨placedA, placedB, trivial⟩
    have grown := length_run placedPair
    rw [pair, countP_isFork_cons, countP_isFork_cons, List.countP_nil, Nat.add_zero,
      ← Nat.add_assoc] at grown
    rwa [grown]
  refine ⟨x, y, _, _, run_append_pair start pair after, ?_, ?_⟩
  · intro plain
    exact run_append_pair start (run_pair_comm apart first second plain pair) after
  · intro forkA forkB
    obtain ⟨middle', pair', same⟩ := run_pair_forks apart first second forkA forkB pair
    obtain ⟨answers, same⟩ := same.run placedMiddle
    exact ⟨_, (run_append_pair start pair' _).trans (by rw [answers]), same⟩

end Exchange

/-- In a run from the generator of a seed, two neighbouring steps with different generators,
the second of which the first does not add, can be exchanged: every step shows the same, and
the same generators are left. If both are forks, the new generators have each other's number,
in the answers and in the later steps. And at every point of a run each generator, once it is
there, stands in its own stream after two words for every value and eight for every fork that
its steps have taken; a step that is no fork leaves it as taking its values, one after the
other, does. -/
theorem run_independent (seed : UInt64) :
    (∀ (before after : List Step) (a b : Step) (earlier : List Answer) (reached : List Generator),
      Placed 1 (before ++ a :: b :: after) →
      run before [.ofSeed seed] = (earlier, reached) →
      a.place ≠ b.place → (a.isFork = true → b.place ≠ reached.length) →
      ∃ x y later left,
        run (before ++ a :: b :: after) [.ofSeed seed] = (earlier ++ x :: y :: later, left) ∧
        (a.isFork = false ∨ b.isFork = false →
          run (before ++ b :: a :: after) [.ofSeed seed] =
            (earlier ++ y :: x :: later, left)) ∧
        (a.isFork = true → b.isFork = true →
          ∃ left',
            run (before ++ b :: a :: after.map (Step.renumber (swapAt reached.length)))
                [.ofSeed seed] =
              (earlier ++ y.renumber (swapAt reached.length) ::
                x.renumber (swapAt reached.length) ::
                later.map (Answer.renumber (swapAt reached.length)), left') ∧
            ∀ i, left'[swapAt reached.length i]? = left[i]?)) ∧
    (∀ (before after : List Step), Placed 1 (before ++ after) → ∀ (i : ℕ) (g : Generator),
      (run before [.ofSeed seed]).2[i]? = some g →
        (run (before ++ after) [.ofSeed seed]).2[i]? =
          some (.after g.key
            (2 * drawsAt i (before ++ after) + 8 * forksAt i (before ++ after)))) ∧
    ∀ (size : ℕ) (g : Generator) (s : Step), s.isFork = false →
      (act size g s).2 = ((Generator.source.values s.draws g).2, none) := by
  refine ⟨?_, ?_, fun size g s => act_of_not_isFork size g⟩
  · intro before after a b earlier reached placed start apart unborn
    obtain ⟨x, y, later, left, here, plain, forks⟩ := run_exchange start placed apart unborn
    refine ⟨x, y, later, left, here, plain, fun forkA forkB => ?_⟩
    obtain ⟨left', there, same⟩ := forks forkA forkB
    exact ⟨left', there, same.getElem?_eq⟩
  · intro before after placed i g there
    obtain ⟨placedBefore, placedAfter⟩ := placed_append.mp placed
    have size : (run before [Generator.ofSeed seed]).2.length =
        1 + before.countP Step.isFork := by
      have placed : Placed [Generator.ofSeed seed].length before := placedBefore
      exact length_run placed
    rw [← size] at placedAfter
    have moved := getElem?_run placedAfter there
    rw [taken_run rfl placedBefore there, ← wordsAt_append] at moved
    rw [run_append]
    exact moved

/-- A generator and its fork are both forked; the later steps use the two new ones. -/
theorem run_independent_of_two_forks :
    ∃ x y later left left',
      run [.fork 0, .fork 0, .fork 1, .total 3 ⟨2, 6⟩, .value 2] [.ofSeed 7] =
        (.forked 1 :: x :: y :: later, left) ∧
      run [.fork 0, .fork 1, .fork 0, .total 2 ⟨2, 6⟩, .value 3] [.ofSeed 7] =
        (.forked 1 :: y.renumber (swapAt 2) :: x.renumber (swapAt 2) ::
          later.map (Answer.renumber (swapAt 2)), left') ∧
      ∀ i, left'[swapAt 2 i]? = left[i]? := by
  have placed : Placed 1 [.fork 0, .fork 0, .fork 1, .total 3 ⟨2, 6⟩, .value 2] := by
    simp [Placed, Step.place, Step.isFork]
  obtain ⟨x, y, later, left, here, -, forks⟩ :=
    (run_independent 7).1 [.fork 0] [.total 3 ⟨2, 6⟩, .value 2] (.fork 0) (.fork 1) _ _ placed rfl
      (by decide) (fun _ => by decide)
  obtain ⟨left', there, same⟩ := forks rfl rfl
  exact ⟨x, y, later, left, left', here, there, same⟩

end DiceSampling.Rollers
