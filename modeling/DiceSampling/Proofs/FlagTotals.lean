/-
# Totals under the options

With no edge a roll is taken once.  With one it is taken twice from the same source, and the
higher or the lower total is kept.  The bonus is added to what is kept, within 64 bits.  So from
one state the total can only fall with disadvantage and only rise with advantage, whatever the
bonus.
-/

import DiceSampling.Options.Basic
import DiceSampling.Proofs.Extremes
import DiceSampling.Proofs.PoolTotals

namespace DiceSampling

variable {σ ι : Type}

namespace Edge

/-- What is kept of two totals that are taken one after the other. -/
def keep : Edge → Int64 → Int64 → Int64
  | none, first, _ => first
  | advantage, first, second => max first second
  | disadvantage, first, second => min first second

/-- How often a roll is taken. -/
def rolls : Edge → ℕ
  | none => 1
  | advantage => 2
  | disadvantage => 2

/-- The pipeline of an edge and a chain of shifts. -/
def operands (edge : Edge) (shifts : List Shift) (roll : Roll σ) : List (Operand σ) :=
  Pipeline.operands (List.replicate edge.rolls roll)
    (edge.modifier?.toList ++ shifts.map Modifier.shift)

variable (edge : Edge) (spare : Source σ) {roll : Roll σ}

/-- Of a chain only what it makes of totals matters. -/
theorem total_operands_congr {shifts shifts' : List Shift}
    (same : Shift.applyAll shifts = Shift.applyAll shifts') (roll : Roll σ) (s : σ) :
    Pipeline.total spare (edge.operands shifts roll) s =
      Pipeline.total spare (edge.operands shifts' roll) s := by
  cases edge with
  | none =>
      have once := Pipeline.total_shifts spare roll
      exact (once shifts s).trans (same ▸ (once shifts' s).symm)
  | advantage =>
      have twice := fun shifts => Pipeline.total_combine_shifts spare roll [roll] shifts s .highest
      exact (twice shifts).trans (same ▸ (twice shifts').symm)
  | disadvantage =>
      have twice := fun shifts => Pipeline.total_combine_shifts spare roll [roll] shifts s .lowest
      exact (twice shifts).trans (same ▸ (twice shifts').symm)

/-- Two totals of a roll, one after the other. -/
theorem totals_pair {first second : Int64} {s s₁ s₂ : σ} (once : roll.total s = (.ok first, s₁))
    (again : roll.total s₁ = (.ok second, s₂)) :
    Eager.totals [roll, roll] s = (.ok [first, second], s₂) := by
  simp only [Eager.totals, once, again, Outcome.andThen, Outcome.map]

/-- The chain acts on the total that is kept. -/
theorem total_operands (shifts : List Shift) {first second : Int64} {s s₁ s₂ : σ}
    (once : roll.total s = (.ok first, s₁)) (again : roll.total s₁ = (.ok second, s₂)) :
    Pipeline.total spare (edge.operands shifts roll) s =
      (.ok (Shift.applyAll shifts (edge.keep first second)),
        if edge = .none then s₁ else s₂) := by
  cases edge with
  | none =>
      refine (Pipeline.total_shifts spare roll shifts s).trans ?_
      rw [once]
      rfl
  | advantage =>
      refine (Pipeline.total_combine_shifts spare roll [roll] shifts s .highest).trans ?_
      rw [totals_pair once again, Outcome.map, List.foldl_cons,
        Combine.keeps_highest.aggregate_initial]
      rfl
  | disadvantage =>
      refine (Pipeline.total_combine_shifts spare roll [roll] shifts s .lowest).trans ?_
      rw [totals_pair once again, Outcome.map, List.foldl_cons,
        Combine.keeps_lowest.aggregate_initial]
      rfl

end Edge

namespace Options

variable (options : Options)

/-- The chain of shifts that adds the bonus, unless it is zero. -/
def shifts : List Shift := if options.bonus = 0 then [] else [.up options.bonus]

theorem applyAll_shifts (total : Int64) :
    Shift.applyAll options.shifts total = Clamped.add total options.bonus := by
  unfold shifts
  split
  · rename_i noBonus
    rw [noBonus, Clamped.add_zero]
    rfl
  · rfl

theorem operands_eq (roll : Roll σ) :
    options.operands roll = options.edge.operands options.shifts roll := by
  unfold operands shifts
  by_cases noBonus : options.bonus = 0
  · rw [if_pos noBonus, if_pos noBonus]
    cases options.edge <;> rfl
  · rw [if_neg noBonus, if_neg noBonus]
    cases options.edge <;> rfl

/-- The bonus is added to the total that is kept. -/
theorem total_of_totals {roll : Roll σ} {first second : Int64} {s s₁ s₂ : σ}
    (once : roll.total s = (.ok first, s₁)) (again : roll.total s₁ = (.ok second, s₂)) :
    options.total roll s =
      (.ok (Clamped.add (options.edge.keep first second) options.bonus),
        if options.edge = .none then s₁ else s₂) := by
  rw [total, operands_eq, Edge.total_operands _ _ _ once again, applyAll_shifts]

/-- A bonus of zero can be left out or not. -/
theorem total_append_bonus (noBonus : options.bonus = 0) (roll : Roll σ) (s : σ) :
    Pipeline.total roll.source (options.operands roll ++ [.modifier (.plus options.bonus)]) s =
      options.total roll s := by
  have shifts : Shift.applyAll [.up options.bonus] = Shift.applyAll options.shifts := by
    funext total
    rw [applyAll_shifts]
    rfl
  have written : options.operands roll ++ [.modifier (.plus options.bonus)] =
      options.edge.operands [.up options.bonus] roll := by
    rw [operands_eq, Options.shifts, if_pos noBonus]
    cases options.edge <;> rfl
  rw [written, Edge.total_operands_congr _ _ shifts, total, operands_eq]

/-- A log of the source has one name for each die of each roll. -/
theorem total_logged {spec : Spec} (source : Source σ) (name : ι) {first second : Int64}
    {s s₁ s₂ : σ} (once : (Roll.plain spec source).total s = (.ok first, s₁))
    (again : (Roll.plain spec source).total s₁ = (.ok second, s₂)) (log : List ι) :
    (options.total (.plain spec (source.logged name)) (s, log)).2.2 =
      log ++ List.replicate (options.edge.rolls * spec.count.toNat) name := by
  have onceLogged := Dice.total_logged source name spec s log
  rw [← Roll.total_plain, ← Roll.total_plain, once] at onceLogged
  have againLogged := Dice.total_logged source name spec s₁
    (log ++ List.replicate spec.count.toNat name)
  rw [← Roll.total_plain, ← Roll.total_plain, again] at againLogged
  rw [options.total_of_totals onceLogged againLogged]
  cases options.edge with
  | none => rw [if_pos rfl, Edge.rolls, Nat.one_mul]
  | advantage => rw [if_neg nofun, Edge.rolls, Nat.two_mul, List.replicate_add, List.append_assoc]
  | disadvantage =>
      rw [if_neg nofun, Edge.rolls, Nat.two_mul, List.replicate_add, List.append_assoc]

/-- A roll of some dice has a total from every state, and another one from the state after it.
With no edge the options give the first of them and the bonus, with advantage the higher one
and the bonus, with disadvantage the lower one and the bonus, the sum held within 64 bits each
time; so the three are in order. A log of the source has one name for each die without an edge,
and two with one. A bonus of zero can be left out. -/
theorem total_of_edges {spec : Spec} (dice : spec.count ≠ 0) (source : Source σ) (s : σ) :
    (∃ first second s₁ s₂,
      (Roll.plain spec source).total s = (.ok first, s₁) ∧
      (Roll.plain spec source).total s₁ = (.ok second, s₂) ∧
      ∃ plain high low,
        { options with edge := .none }.total (.plain spec source) s = (.ok plain, s₁) ∧
        plain = Clamped.add first options.bonus ∧
        { options with edge := .advantage }.total (.plain spec source) s = (.ok high, s₂) ∧
        high = Clamped.add (max first second) options.bonus ∧
        { options with edge := .disadvantage }.total (.plain spec source) s = (.ok low, s₂) ∧
        low = Clamped.add (min first second) options.bonus ∧
        low ≤ plain ∧ plain ≤ high) ∧
    (∀ (name : ι) (log : List ι),
      (options.total (.plain spec (source.logged name)) (s, log)).2.2 =
        log ++ List.replicate (options.edge.rolls * spec.count.toNat) name) ∧
    (options.bonus = 0 → ∀ (roll : Roll σ) (s : σ),
      Pipeline.total roll.source (options.operands roll ++ [.modifier (.plus options.bonus)]) s =
        options.total roll s) := by
  have once := Dice.total_eq source dice s
  have again := Dice.total_eq source dice (Dice.faces source spec s).2
  have bonus {x y : Int64} (order : x ≤ y) :
      Clamped.add x options.bonus ≤ Clamped.add y options.bonus :=
    Shift.applyAll_mono [.up options.bonus] order
  refine ⟨⟨_, _, _, _, once, again, _, _, _, ?_, rfl, ?_, rfl, ?_, rfl, ?_, ?_⟩, ?_, ?_⟩
  · exact total_of_totals { options with edge := .none } once again
  · exact total_of_totals { options with edge := .advantage } once again
  · exact total_of_totals { options with edge := .disadvantage } once again
  · exact bonus (Combine.keeps_lowest.left_le _ _)
  · exact bonus (Combine.keeps_highest.left_le _ _)
  · exact fun name => options.total_logged source name once again
  · exact options.total_append_bonus

end Options

/-- The source that gives zero and one half in turn and counts what it gives. -/
def Source.alternating : Source ℕ := ⟨none, fun n => (if n % 2 = 0 then 0.0 else 0.5, n + 1)⟩

/-- One die of six sides that shows one and then four, and a bonus of two. -/
theorem Options.total_of_edges_of_alternating_source :
    { notations := ["1d6"], bonus := 2, edge := .advantage : Options }.total
        (.plain ⟨1, 6⟩ Source.alternating) 0 = (.ok 6, 2) ∧
      { notations := ["1d6"], bonus := 2, edge := .disadvantage : Options }.total
        (.plain ⟨1, 6⟩ Source.alternating) 0 = (.ok 3, 2) := by
  obtain ⟨⟨first, second, s₁, s₂, once, again, _, _, _, -, -, advantage, rfl, disadvantage, rfl,
    -⟩, -⟩ := @total_of_edges ℕ Unit { notations := ["1d6"], bonus := 2 } ⟨1, 6⟩ (by decide)
      Source.alternating 0
  have one : Dice.addFace 0 (draw 1 6 0.0) = 1 := by decide
  have four : Dice.addFace 0 (draw 1 6 0.5) = 4 := by decide
  cases once.symm.trans (congrArg (fun total => (Except.ok total, 1)) one)
  cases again.symm.trans (congrArg (fun total => (Except.ok total, 2)) four)
  exact ⟨advantage, disadvantage⟩

end DiceSampling
