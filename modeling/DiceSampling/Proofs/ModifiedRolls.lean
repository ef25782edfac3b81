/-
# What modifiers leave of rolls

A shift gives a roll a new evaluator and nothing else: the dice and the source stay, and with
them the faces.  A combination leaves one roll without dice.  That roll has a source, but takes
its total from the rolls that are combined and from nowhere else, and all that shifts and
combinations after it do is to work on the number that it gives.
-/

import DiceSampling.Proofs.EagerPipeline
import DiceSampling.Proofs.PoolTotals

namespace DiceSampling

variable {σ : Type}

namespace Roll

/-- A roll with the dice and the source of another. -/
structure SameDice (before after : Roll σ) : Prop where
  spec : after.spec = before.spec
  source : after.source = before.source

/-- A derived roll without dice, over some source, whose total ends in some way. -/
structure Diceless (source : Source σ) (ends : σ → Outcome σ Int64) (roll : Roll σ) : Prop where
  spec : roll.spec = .blank
  isDerived : roll.isDerived = true
  source : roll.source = source
  total : ∀ s, roll.total s = ends s

variable {before after roll : Roll σ} {source : Source σ} {ends : σ → Outcome σ Int64}

theorem SameDice.refl (roll : Roll σ) : SameDice roll roll := ⟨rfl, rfl⟩

theorem SameDice.shift (h : SameDice before after) (shift : Shift) :
    SameDice before (shift.roll after) := ⟨h.spec, h.source⟩

theorem SameDice.faces (h : SameDice before after) : after.faces = before.faces := by
  rw [Roll.faces, Roll.faces, h.spec, h.source]

theorem Diceless.faces (h : Diceless source ends roll) (s : σ) : roll.faces s = ([], s) := by
  rw [Roll.faces, h.spec]
  exact Dice.faces_of_count_eq_zero _ rfl s

theorem Diceless.congr {ends' : σ → Outcome σ Int64} (h : Diceless source ends roll)
    (same : ∀ s, ends s = ends' s) : Diceless source ends' roll where
  spec := h.spec
  isDerived := h.isDerived
  source := h.source
  total s := (h.total s).trans (same s)

/-- A shift changes the total of a roll without dice, and nothing else of it. -/
theorem Diceless.shift (h : Diceless source ends roll) (shift : Shift) :
    Diceless source (fun s => Outcome.map shift.apply (ends s)) (shift.roll roll) where
  spec := h.spec
  isDerived := rfl
  source := h.source
  total s := by rw [Shift.total_roll, h.total]

/-- So does a combination of one roll without dice. -/
theorem Diceless.combine (h : Diceless source ends roll) (combine : Combine) (spare : Source σ) :
    Diceless source (fun s => Outcome.map (combine.aggregate combine.initial) (ends s))
      (combine.roll spare [roll]) where
  spec := rfl
  isDerived := rfl
  source := h.source
  total s := by
    rw [Combine.roll, Roll.total_derive, Eager.total_combine, Eager.totals_singleton, h.total,
      Outcome.map_map]
    rfl

end Roll

open Roll (SameDice Diceless)

/-- The roll that a combination leaves folds the totals of the rolls that it combines. -/
theorem Combine.diceless_roll (combine : Combine) (spare : Source σ) (rolls : List (Roll σ)) :
    Diceless ((rolls.head?.map Roll.source).getD spare)
      (fun s => Outcome.map (List.foldl combine.aggregate combine.initial) (Eager.totals rolls s))
      (combine.roll spare rolls) where
  spec := rfl
  isDerived := rfl
  source := rfl
  total s := by rw [Combine.roll, Roll.total_derive, Eager.total_combine]

/-- What no roll changes when its total is taken stays when all their totals are. -/
theorem Eager.totals_frame {β : Type} {rolls : List (Roll σ)} (look : σ → β)
    (keeps : ∀ roll ∈ rolls, ∀ s, look (roll.total s).2 = look s) (s : σ) :
    look (totals rolls s).2 = look s := by
  induction rolls generalizing s with
  | nil => rfl
  | cons roll rolls ih =>
      obtain ⟨here, others⟩ := List.forall_mem_cons.mp keeps
      have first := here s
      rw [totals]
      generalize roll.total s = outcome at first ⊢
      obtain ⟨result, next⟩ := outcome
      cases result with
      | error fault => exact first
      | ok total =>
          rw [Outcome.andThen, Outcome.snd_map, ih others]
          exact first

namespace Stage

variable {stages later : List Stage} {combine : Combine}

/-- Without a combination every roll keeps its place, its dice and its source. -/
theorem sameDice_applyAll (spare : Source σ) (uncombined : firstCombine stages = none)
    {rolls shifted : List (Roll σ)} (h : List.Forall₂ SameDice rolls shifted) :
    List.Forall₂ SameDice rolls (Modifier.applyAll spare (stages.map modifier) shifted) := by
  induction stages generalizing shifted with
  | nil => exact h
  | cons stage stages ih =>
      cases stage with
      | shift shift =>
          refine ih uncombined (List.forall₂_map_right_iff.mpr ?_)
          exact h.imp fun _ _ same => same.shift shift
      | combine combine => cases uncombined

section Single

variable (spare : Source σ) {source : Source σ} {ends : σ → Outcome σ Int64} {roll : Roll σ}
  (h : Diceless source ends roll)
include h

/-- A stage makes of a single roll without dice another one, and acts on its total. -/
theorem exists_apply_singleton (stage : Stage) :
    ∃ next, stage.modifier.apply spare [roll] = [next] ∧
      Diceless source (fun s => Outcome.map stage.act (ends s)) next := by
  cases stage with
  | shift shift => exact ⟨shift.roll roll, rfl, h.shift shift⟩
  | combine combine => exact ⟨combine.roll spare [roll], rfl, h.combine combine spare⟩

theorem exists_applyAll_singleton (stages : List Stage) :
    ∃ last, Modifier.applyAll spare (stages.map modifier) [roll] = [last] ∧
      Diceless source (fun s => Outcome.map (actAll stages) (ends s)) last := by
  induction stages generalizing ends roll with
  | nil => exact ⟨roll, rfl, h.congr fun s => (Outcome.map_id (ends s)).symm⟩
  | cons stage stages ih =>
      obtain ⟨next, made, step⟩ := exists_apply_singleton spare h stage
      obtain ⟨last, left, run⟩ := ih step
      refine ⟨last, ?_, run.congr fun s => Outcome.map_map _ _ _⟩
      rw [← left, ← made]
      rfl

end Single

/-- With a combination there is one roll in the end, and it has no dice. -/
theorem exists_applyAll (spare : Source σ) (combined : firstCombine stages = some (combine, later))
    (rolls : List (Roll σ)) :
    ∃ last, Modifier.applyAll spare (stages.map modifier) rolls = [last] ∧
      Diceless ((rolls.head?.map Roll.source).getD spare)
        (fun s => Outcome.map (fun totals => actAll later
          ((totals.map (leading stages)).foldl combine.aggregate combine.initial))
          (Eager.totals rolls s)) last := by
  induction stages generalizing rolls with
  | nil => cases combined
  | cons stage stages ih =>
      cases stage with
      | shift shift =>
          -- the first of the shifted rolls has the source that the first roll has
          have source : (rolls.map shift.roll).head?.map Roll.source =
              rolls.head?.map Roll.source := by
            rw [List.head?_map, Option.map_map]
            rfl
          obtain ⟨last, left, diceless⟩ := ih combined (rolls.map shift.roll)
          rw [source] at diceless
          refine ⟨last, left, diceless.congr fun s => ?_⟩
          rw [Eager.totals_map_shift, Outcome.map_map]
          congr 1
          funext totals
          rw [Function.comp_apply, List.map_map]
          rfl
      | combine first =>
          cases combined
          obtain ⟨last, left, diceless⟩ :=
            exists_applyAll_singleton spare (combine.diceless_roll spare rolls) later
          refine ⟨last, left, diceless.congr fun s => ?_⟩
          rw [Outcome.map_map, leading_cons_combine]
          congr 1
          funext totals
          rw [List.map_id]
          rfl

/-- Without a combination the rolls stay as many and in their places, each with its dice, its
source and so its faces. With a combination one derived roll is left, which has no dice and
shows no faces. It has the source of the first roll, or the spare one if there is none, but its
total is made of the totals of the rolls, each taken once and in order: in the state it changes
nothing that none of them changes, and the spare source has no part in it. Without rolls it
takes nothing, and its total is what the combination starts from after the stages that are
left. -/
theorem applyAll_shape (stages : List Stage) :
    (firstCombine stages = none → ∀ (spare : Source σ) (rolls : List (Roll σ)),
      (Modifier.applyAll spare (stages.map modifier) rolls).length = rolls.length ∧
      List.Forall₂ (fun before after => after.spec = before.spec ∧ after.source = before.source ∧
          ∀ s, after.faces s = before.faces s)
        rolls (Modifier.applyAll spare (stages.map modifier) rolls)) ∧
    ∀ combine later, firstCombine stages = some (combine, later) →
      ∀ (spare : Source σ) (rolls : List (Roll σ)), ∃ last,
        Modifier.applyAll spare (stages.map modifier) rolls = [last] ∧
        last.spec = .blank ∧ last.isDerived = true ∧
        last.source = (rolls.head?.map Roll.source).getD spare ∧
        (∀ s, last.faces s = ([], s)) ∧
        (∀ s, last.total s = Outcome.map (fun totals => actAll later
          ((totals.map (leading stages)).foldl combine.aggregate combine.initial))
          (Eager.totals rolls s)) ∧
        (∀ (β : Type) (look : σ → β), (∀ roll ∈ rolls, ∀ s, look (roll.total s).2 = look s) →
          ∀ s, look (last.total s).2 = look s) ∧
        (rolls = [] → ∀ s, last.total s = (.ok (actAll later combine.initial), s)) := by
  constructor
  · intro uncombined spare rolls
    have unchanged : List.Forall₂ SameDice rolls rolls :=
      List.forall₂_same.mpr fun roll _ => SameDice.refl roll
    have same := sameDice_applyAll spare uncombined unchanged
    exact ⟨same.length_eq.symm, same.imp fun _ _ dice =>
      ⟨dice.spec, dice.source, fun s => congrFun dice.faces s⟩⟩
  · intro combine later combined spare rolls
    obtain ⟨last, left, diceless⟩ := exists_applyAll spare combined rolls
    refine ⟨last, left, diceless.spec, diceless.isDerived, diceless.source, diceless.faces,
      diceless.total, fun _ look keeps s => ?_, ?_⟩
    · rw [diceless.total, Outcome.snd_map]
      exact Eager.totals_frame look keeps s
    · rintro rfl s
      exact diceless.total s

end Stage

end DiceSampling
