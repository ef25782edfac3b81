/-
# What the options make of a roll

The pipeline of a plain roll is one more derived roll: the dice, or the higher or lower of
two rolls of them, and then the bonus.  All its plain rolls are of the same dice, so it has
a total exactly if there are any.
-/

import DiceSampling.Options.Basic
import DiceSampling.Proofs.Recipes

namespace DiceSampling.Options

variable {σ : Type}

/-- How the options make a roll of some dice. -/
def recipe (options : Options) (spec : Spec) : Recipe Unit :=
  let dice := .plain spec ()
  let kept :=
    match options.edge with
    | .none => dice
    | .advantage => .combine .highest () [dice, dice]
    | .disadvantage => .combine .lowest () [dice, dice]
  if options.bonus = 0 then kept else .shift (.up options.bonus) kept

/-- The pipeline of a plain roll has the total of its recipe. -/
theorem total_plain_eq (options : Options) (spec : Spec) (source : Source σ) :
    options.total (.plain spec source) =
      ((options.recipe spec).roll fun _ => source).total := by
  unfold Options.total operands recipe
  by_cases bonus : options.bonus = 0
  · rw [if_pos bonus, if_pos bonus]
    cases options.edge <;> rfl
  · rw [if_neg bonus, if_neg bonus]
    cases options.edge <;> rfl

/-- The plain rolls of the recipe are all of the dice: one, or two if one of two is kept. -/
theorem leaves_recipe (options : Options) (spec : Spec) :
    (options.recipe spec).leaves =
      List.replicate (if options.edge = .none then 1 else 2) ⟨spec, ()⟩ := by
  unfold recipe
  by_cases bonus : options.bonus = 0
  · rw [if_pos bonus]
    cases options.edge <;> rfl
  · rw [if_neg bonus]
    cases options.edge <;> rfl

/-- Whatever the options, there is no total exactly if there are no dice. -/
theorem total_plain_eq_error_iff (options : Options) (spec : Spec) (source : Source σ) (s : σ)
    (fault : Fault) :
    (options.total (.plain spec source) s).1 = .error fault ↔
      fault = .nonPositiveCount 0 ∧ spec.count = 0 := by
  have occurs : (if options.edge = .none then 1 else 2) ≠ 0 := by
    split <;> decide
  rw [total_plain_eq, Recipe.total_eq_error_iff, leaves_recipe]
  simp only [List.mem_replicate, ne_eq, occurs, not_false_eq_true, true_and, exists_eq_left]

end DiceSampling.Options
