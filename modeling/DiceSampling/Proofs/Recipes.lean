/-
# What derived rolls take

A recipe says how a roll is made of plain ones by shifts and combinations.  Whatever the
nesting, taking its total rolls the plain rolls in it from left to right, each as often
as it occurs, and stops at the first that has no dice.  So the values that are taken,
and whether there is a total, depend on the recipe alone.
-/

import DiceSampling.Proofs.EagerPipeline
import DiceSampling.Proofs.PoolTotals
import Mathlib.Logic.Function.Iterate

namespace DiceSampling

variable {σ ι α β : Type}

/-- How a roll is made of plain rolls.  Sources are known by name, so that plain rolls
with the same name share their source. -/
inductive Recipe (ι : Type) where
  | plain (spec : Spec) (source : ι)
  | shift (shift : Shift) (of : Recipe ι)
  /-- `spare` names the source of a combination of no rolls. -/
  | combine (combine : Combine) (spare : ι) (of : List (Recipe ι))

/-- An occurrence of a plain roll. -/
structure Leaf (ι : Type) where
  spec : Spec
  source : ι

namespace Recipe

mutual

/-- The roll that a recipe makes over some sources. -/
def roll (sources : ι → Source σ) : Recipe ι → Roll σ
  | plain spec source => .plain spec (sources source)
  | shift s of => s.roll (of.roll sources)
  | combine c spare of => c.roll (sources spare) (rolls sources of)

/-- The rolls of several recipes. -/
def rolls (sources : ι → Source σ) : List (Recipe ι) → List (Roll σ)
  | [] => []
  | first :: rest => first.roll sources :: rolls sources rest

end

mutual

/-- The plain rolls in a recipe, from left to right. -/
def leaves : Recipe ι → List (Leaf ι)
  | plain spec source => [⟨spec, source⟩]
  | shift _ of => of.leaves
  | combine _ _ of => leavesOf of

/-- The plain rolls in several recipes, from left to right. -/
def leavesOf : List (Recipe ι) → List (Leaf ι)
  | [] => []
  | first :: rest => first.leaves ++ leavesOf rest

end

theorem rolls_eq_map (sources : ι → Source σ) (of : List (Recipe ι)) :
    rolls sources of = of.map (roll sources) := by
  induction of with
  | nil => rw [rolls, List.map_nil]
  | cons first rest ih => rw [rolls, ih, List.map_cons]

end Recipe

namespace Stage

/-- The recipes after a stage. -/
def recipes (spare : ι) : Stage → List (Recipe ι) → List (Recipe ι)
  | shift s, of => of.map (.shift s)
  | combine c, of => [.combine c spare of]

/-- A modifier makes rolls that have recipes out of rolls that have them. -/
theorem apply_modifier (sources : ι → Source σ) (spare : ι) (stage : Stage)
    (of : List (Recipe ι)) :
    stage.modifier.apply (sources spare) (of.map (Recipe.roll sources)) =
      (stage.recipes spare of).map (Recipe.roll sources) := by
  cases stage with
  | shift s =>
      rw [recipes, List.map_map, modifier, Modifier.apply, List.map_map]
      rfl
  | combine c =>
      rw [recipes, List.map_singleton, Recipe.roll, Recipe.rolls_eq_map, modifier, Modifier.apply]

/-- What several modifiers make of rolls that have recipes has recipes. -/
theorem applyAll_modifiers (sources : ι → Source σ) (spare : ι) (stages : List Stage)
    (of : List (Recipe ι)) :
    Modifier.applyAll (sources spare) (stages.map modifier) (of.map (Recipe.roll sources)) =
      (stages.foldl (fun of stage => stage.recipes spare of) of).map (Recipe.roll sources) := by
  induction stages generalizing of with
  | nil => rfl
  | cons stage stages ih =>
      rw [List.foldl_cons, ← ih, ← apply_modifier]
      rfl

end Stage

namespace Source

/-- The state after a value has been taken from each of some sources, in order. -/
def takeFrom (sources : ι → Source σ) (names : List ι) (s : σ) : σ :=
  names.foldl (fun s name => ((sources name).next s).2) s

theorem takeFrom_append (sources : ι → Source σ) (first rest : List ι) (s : σ) :
    takeFrom sources (first ++ rest) s = takeFrom sources rest (takeFrom sources first s) :=
  List.foldl_append

theorem takeFrom_replicate (sources : ι → Source σ) (n : ℕ) (name : ι) (s : σ) :
    takeFrom sources (List.replicate n name) s = ((sources name).values n s).2 := by
  induction n generalizing s with
  | zero => rfl
  | succ n ih =>
      rw [values_succ, ← ih]
      rfl

/-- The sources, each of which writes its own name into one log. -/
def loggedEach (sources : ι → Source σ) (name : ι) : Source (σ × List ι) :=
  (sources name).logged name

/-- The log ends up with the names that gave values, in order. -/
theorem takeFrom_loggedEach (sources : ι → Source σ) (names : List ι) (s : σ) (log : List ι) :
    takeFrom (loggedEach sources) names (s, log) = (takeFrom sources names s, log ++ names) := by
  induction names generalizing s log with
  | nil => exact congrArg (Prod.mk s) (List.append_nil log).symm
  | cons name names ih =>
      rw [← List.singleton_append, ← List.append_assoc]
      exact ih ((sources name).next s).2 (log ++ [name])

end Source

namespace Leaf

/-- The name of a leaf's source, once for each of its dice. -/
def names (leaf : Leaf ι) : List ι := List.replicate leaf.spec.count.toNat leaf.source

/-- The names of the sources that leaves take values from, in order: those of the leaves
before the first that has no dice. -/
def draws (leaves : List (Leaf ι)) : List ι :=
  (leaves.takeWhile (·.spec.count ≠ 0)).flatMap names

theorem draws_cons_of_ne_zero {first : Leaf ι} (h : first.spec.count ≠ 0)
    (rest : List (Leaf ι)) : draws (first :: rest) = first.names ++ draws rest := by
  rw [draws, List.takeWhile_cons, if_pos (decide_eq_true h), List.flatMap_cons, ← draws]

theorem draws_cons_of_eq_zero {first : Leaf ι} (h : first.spec.count = 0)
    (rest : List (Leaf ι)) : draws (first :: rest) = [] := by
  rw [draws, List.takeWhile_cons, if_neg (decide_eq_true_iff.not.mpr (not_not_intro h)),
    List.flatMap_nil]

theorem draws_singleton (leaf : Leaf ι) : draws [leaf] = leaf.names := by
  by_cases h : leaf.spec.count = 0
  · rw [draws_cons_of_eq_zero h, names, h]
    rfl
  · rw [draws_cons_of_ne_zero h]
    exact List.append_nil _

theorem draws_of_forall {leaves : List (Leaf ι)} (all : ∀ leaf ∈ leaves, leaf.spec.count ≠ 0) :
    draws leaves = leaves.flatMap names := by
  induction leaves with
  | nil => rfl
  | cons first rest ih =>
      obtain ⟨here, others⟩ := List.forall_mem_cons.mp all
      rw [draws_cons_of_ne_zero here, ih others, List.flatMap_cons]

/-- Leaves that all have dice let those after them take their values. -/
theorem draws_append_of_forall {leaves : List (Leaf ι)}
    (all : ∀ leaf ∈ leaves, leaf.spec.count ≠ 0) (more : List (Leaf ι)) :
    draws (leaves ++ more) = draws leaves ++ draws more := by
  induction leaves with
  | nil => rfl
  | cons first rest ih =>
      obtain ⟨here, others⟩ := List.forall_mem_cons.mp all
      rw [List.cons_append, draws_cons_of_ne_zero here, draws_cons_of_ne_zero here, ih others,
        List.append_assoc]

/-- A leaf without dice keeps those after it from taking values. -/
theorem draws_append_of_exists {leaves : List (Leaf ι)}
    (empty : ∃ leaf ∈ leaves, leaf.spec.count = 0) (more : List (Leaf ι)) :
    draws (leaves ++ more) = draws leaves := by
  induction leaves with
  | nil =>
      obtain ⟨leaf, absent, -⟩ := empty
      exact absurd absent List.not_mem_nil
  | cons first rest ih =>
      rw [List.cons_append]
      by_cases here : first.spec.count = 0
      · rw [draws_cons_of_eq_zero here, draws_cons_of_eq_zero here]
      · have later : ∃ leaf ∈ rest, leaf.spec.count = 0 :=
          (List.exists_mem_cons_iff ..).mp empty |>.resolve_left here
        rw [draws_cons_of_ne_zero here, draws_cons_of_ne_zero here, ih later]

/-- Leaves with dice take from a source one value for each die of those bound to it. -/
theorem count_draws [DecidableEq ι] {leaves : List (Leaf ι)}
    (all : ∀ leaf ∈ leaves, leaf.spec.count ≠ 0) (name : ι) :
    (draws leaves).count name =
      ((leaves.filter (·.source = name)).map (·.spec.count.toNat)).sum := by
  induction leaves with
  | nil => rfl
  | cons first rest ih =>
      obtain ⟨here, others⟩ := List.forall_mem_cons.mp all
      rw [draws_cons_of_ne_zero here, List.count_append, names, List.count_replicate, ih others,
        List.filter_cons]
      simp only [beq_iff_eq, decide_eq_true_eq]
      split
      · rw [List.map_cons, List.sum_cons]
      · rw [Nat.zero_add]

end Leaf

/-- What taking the totals of some leaves in order ends in, with a result that is left open:
the values that the leaves take are gone, and a leaf without dice is a fault. -/
inductive Accounts (sources : ι → Source σ) (leaves : List (Leaf ι)) (s : σ) : Outcome σ α → Prop
  | finished (a : α) (all : ∀ leaf ∈ leaves, leaf.spec.count ≠ 0) :
    Accounts sources leaves s (.ok a, Source.takeFrom sources (Leaf.draws leaves) s)
  | stopped (empty : ∃ leaf ∈ leaves, leaf.spec.count = 0) :
    Accounts sources leaves s
      (.error (.nonPositiveCount 0), Source.takeFrom sources (Leaf.draws leaves) s)

namespace Accounts

variable {sources : ι → Source σ} {leaves more : List (Leaf ι)} {s : σ}

theorem map {outcome : Outcome σ α} (h : Accounts sources leaves s outcome) (f : α → β) :
    Accounts sources leaves s (Outcome.map f outcome) := by
  cases h with
  | finished a all => exact finished (f a) all
  | stopped empty => exact stopped empty

/-- Going on with more leaves accounts for all of them. -/
theorem andThen {outcome : Outcome σ α} {next : α → σ → Outcome σ β}
    (h : Accounts sources leaves s outcome)
    (goesOn : ∀ a s, Accounts sources more s (next a s)) :
    Accounts sources (leaves ++ more) s (Outcome.andThen outcome next) := by
  cases h with
  | finished a all =>
      -- what follows starts where the values of all these leaves are gone
      have later := goesOn a (Source.takeFrom sources (Leaf.draws leaves) s)
      rw [Outcome.andThen]
      generalize next a (Source.takeFrom sources (Leaf.draws leaves) s) = outcome at later
      cases later with
      | finished b others =>
          rw [← Source.takeFrom_append, ← Leaf.draws_append_of_forall all]
          exact finished b (List.forall_mem_append.mpr ⟨all, others⟩)
      | stopped empty =>
          obtain ⟨leaf, hleaf, noDice⟩ := empty
          rw [← Source.takeFrom_append, ← Leaf.draws_append_of_forall all]
          exact stopped ⟨leaf, List.mem_append_right leaves hleaf, noDice⟩
  | stopped empty =>
      obtain ⟨leaf, hleaf, noDice⟩ := empty
      rw [Outcome.andThen, ← Leaf.draws_append_of_exists ⟨leaf, hleaf, noDice⟩ more]
      exact stopped ⟨leaf, List.mem_append_left more hleaf, noDice⟩

theorem total_plain (sources : ι → Source σ) (spec : Spec) (source : ι) (s : σ) :
    Accounts sources [⟨spec, source⟩] s ((Roll.plain spec (sources source)).total s) := by
  by_cases h : spec.count = 0
  · have fault : (Roll.plain spec (sources source)).total s =
        (.error (.nonPositiveCount 0),
          Source.takeFrom sources (Leaf.draws [⟨spec, source⟩]) s) := by
      rw [Roll.total_plain, Dice.total_of_count_eq_zero _ h, Leaf.draws_cons_of_eq_zero h]
      rfl
    rw [fault]
    exact stopped ⟨⟨spec, source⟩, List.mem_singleton_self _, h⟩
  · have draws : Leaf.draws [⟨spec, source⟩] = List.replicate spec.count.toNat source :=
      Leaf.draws_singleton ⟨spec, source⟩
    rw [Roll.total_plain, Dice.total_eq _ h, Dice.faces_eq, ← Source.takeFrom_replicate, ← draws]
    exact finished _ (List.forall_mem_singleton.mpr h)

end Accounts

namespace Recipe

mutual

/-- The total of a recipe's roll accounts for its leaves. -/
theorem accounts_total (sources : ι → Source σ) (recipe : Recipe ι) (s : σ) :
    Accounts sources recipe.leaves s ((recipe.roll sources).total s) := by
  cases recipe with
  | plain spec source =>
      rw [leaves, roll]
      exact Accounts.total_plain sources spec source s
  | shift change of =>
      rw [leaves, roll, Shift.total_roll]
      exact (accounts_total sources of s).map change.apply
  | combine rule spare of =>
      -- the rule works on the totals alone, so what it folds them to is of no account
      rw [leaves, roll, Combine.roll, Roll.total_derive, Eager.total_combine]
      exact (accounts_totals sources of s).map _

/-- The totals of several recipes' rolls account for all their leaves. -/
theorem accounts_totals (sources : ι → Source σ) (of : List (Recipe ι)) (s : σ) :
    Accounts sources (leavesOf of) s (Eager.totals (rolls sources of) s) := by
  cases of with
  | nil =>
      rw [leavesOf, rolls, Eager.totals]
      exact Accounts.finished [] (by simp)
  | cons first rest =>
      rw [leavesOf, rolls, Eager.totals]
      exact (accounts_total sources first s).andThen fun total s =>
        (accounts_totals sources rest s).map (total :: ·)

end

section Total

variable (recipe : Recipe ι) (sources : ι → Source σ)

/-- There is no total exactly if some plain roll has no dice, and no other fault occurs. -/
theorem total_eq_error_iff (s : σ) (fault : Fault) :
    ((recipe.roll sources).total s).1 = .error fault ↔
      fault = .nonPositiveCount 0 ∧ ∃ leaf ∈ recipe.leaves, leaf.spec.count = 0 := by
  have accounts := accounts_total sources recipe s
  generalize (recipe.roll sources).total s = outcome at accounts ⊢
  cases accounts with
  | finished total all =>
      constructor
      · intro fails
        cases fails
      · rintro ⟨-, leaf, hleaf, noDice⟩
        exact absurd noDice (all leaf hleaf)
  | stopped empty =>
      rw [Except.error.injEq, eq_comm]
      exact ⟨fun same => ⟨same, empty⟩, And.left⟩

/-- Taking the total takes the draws of the leaves and leaves all else alone. -/
theorem total_snd (s : σ) :
    ((recipe.roll sources).total s).2 = Source.takeFrom sources (Leaf.draws recipe.leaves) s := by
  have accounts := accounts_total sources recipe s
  generalize (recipe.roll sources).total s = outcome at accounts ⊢
  cases accounts <;> rfl

/-- Taking the total again and again takes the same draws each time. -/
theorem iterate_total_snd (n : ℕ) (s : σ) :
    (fun s => ((recipe.roll sources).total s).2)^[n] s =
      Source.takeFrom sources (List.replicate n (Leaf.draws recipe.leaves)).flatten s := by
  induction n generalizing s with
  | zero => rfl
  | succ n ih =>
      rw [Function.iterate_succ_apply, ih, total_snd, ← Source.takeFrom_append,
        List.replicate_succ, List.flatten_cons]

end Total

/-- A roll that shifts and combinations make of plain ones has no total exactly if one of them
has no dice, whatever the sources give. A log of the sources shows that its leaves take one
value for each die, in their order: all of them if there is a total, and those before the first
without dice if there is none. Taking the total `n` times logs the same draws `n` times. -/
theorem total_takes_draws [DecidableEq ι] (recipe : Recipe ι) (sources : ι → Source σ) (s : σ) :
    ((∃ fault, ((recipe.roll sources).total s).1 = .error fault) ↔
      ∃ leaf ∈ recipe.leaves, leaf.spec.count = 0) ∧
    (∀ fault, ((recipe.roll sources).total s).1 = .error fault → fault = .nonPositiveCount 0) ∧
    ∃ draws : List ι,
      ((∀ leaf ∈ recipe.leaves, leaf.spec.count ≠ 0) →
        draws = recipe.leaves.flatMap Leaf.names ∧
        ∀ name, draws.count name =
          ((recipe.leaves.filter (·.source = name)).map (·.spec.count.toNat)).sum) ∧
      (∀ before empty after, recipe.leaves = before ++ empty :: after →
        (∀ leaf ∈ before, leaf.spec.count ≠ 0) → empty.spec.count = 0 →
          draws = before.flatMap Leaf.names) ∧
      ((recipe.roll sources).total s).2 = Source.takeFrom sources draws s ∧
      ∀ n log, (fun state => ((recipe.roll (Source.loggedEach sources)).total state).2)^[n]
          (s, log) =
        (Source.takeFrom sources (List.replicate n draws).flatten s,
          log ++ (List.replicate n draws).flatten) := by
  refine ⟨?_, ?_, Leaf.draws recipe.leaves, ?_, ?_, recipe.total_snd sources s, ?_⟩
  · simp only [total_eq_error_iff, exists_eq_left]
  · intro fault stops
    exact ((recipe.total_eq_error_iff sources s fault).mp stops).1
  · intro all
    exact ⟨Leaf.draws_of_forall all, Leaf.count_draws all⟩
  · intro before empty after split all noDice
    rw [split, Leaf.draws_append_of_forall all, Leaf.draws_cons_of_eq_zero noDice,
      List.append_nil, Leaf.draws_of_forall all]
  · intro n log
    rw [iterate_total_snd, Source.takeFrom_loggedEach]

/-- A combination stops at the plain roll without dice in its second part. -/
example : Leaf.draws (combine .highest 2 [plain ⟨2, 6⟩ 1, shift (.up 3) (plain ⟨0, 4⟩ 0),
    plain ⟨1, 0⟩ 1]).leaves = [1, 1] := by
  decide

end Recipe

end DiceSampling
