/-
# Pools of dice

Rolling a pool and summing it both take one value for each die and look at nothing
else.  The faces are those that the values stand for, in order, and the total is their
exact sum held within 64 bits.  Over values of `[0, 1)` the faces stay on the dice
exactly if no value overshoots.
-/

import DiceSampling.Roll
import DiceSampling.Proofs.Draw

namespace DiceSampling

variable {σ : Type}

/-- The first of several computations runs before the others. -/
theorem mapM_cons_apply {α β : Type} (act : α → StateM σ β) (first : α) (rest : List α) (s : σ) :
    (first :: rest).mapM act s =
      ((act first s).1 :: (rest.mapM act (act first s).2).1,
        (rest.mapM act (act first s).2).2) := by
  rw [List.mapM_cons]
  rfl

/-- Takes a number of values. -/
def Source.values (source : Source σ) (n : ℕ) : StateM σ (List Float) :=
  (List.replicate n ()).mapM fun _ => source.next

theorem Source.values_succ (source : Source σ) (n : ℕ) (s : σ) :
    source.values (n + 1) s =
      ((source.next s).1 :: (source.values n (source.next s).2).1,
        (source.values n (source.next s).2).2) :=
  mapM_cons_apply _ _ _ s

namespace Dice

/-- The face that a value stands for on a die. -/
def shown (sides : UInt32) (r : Float) : UInt32 := if sides = 0 then 0 else draw 1 sides r

/-- The faces of a pool are those that the values stand for. -/
theorem mapM_face_eq (source : Source σ) (sides : UInt32) (n : ℕ) (s : σ) :
    ((List.replicate n ()).mapM fun _ => face source sides) s =
      ((source.values n s).1.map (shown sides), (source.values n s).2) := by
  induction n generalizing s with
  | zero => rfl
  | succ n ih =>
      have shows : face source sides s = (shown sides (source.next s).1, (source.next s).2) := rfl
      rw [List.replicate_succ, mapM_cons_apply, shows, Source.values_succ, ih]
      rfl

theorem faces_eq (source : Source σ) (spec : Spec) (s : σ) :
    faces source spec s =
      ((source.values spec.count.toNat s).1.map (shown spec.sides),
        (source.values spec.count.toNat s).2) :=
  mapM_face_eq source spec.sides spec.count.toNat s

theorem addFaces_eq (source : Source σ) (sides : UInt32) (n : ℕ) (total : Int64) (s : σ) :
    addFaces source sides n total s =
      (((source.values n s).1.map (shown sides)).foldl addFace total, (source.values n s).2) := by
  induction n generalizing total s with
  | zero => rfl
  | succ n ih =>
      rw [Source.values_succ, List.map_cons, List.foldl_cons]
      exact ih (addFace total (shown sides (source.next s).1)) (source.next s).2

/-- The total of a pool is the sum of the faces that the same state leads to. -/
theorem total_eq (source : Source σ) {spec : Spec} (h : spec.count ≠ 0) (s : σ) :
    total source spec s =
      (.ok ((faces source spec s).1.foldl addFace 0), (faces source spec s).2) := by
  rw [total, if_neg h, faces_eq]
  show (Except.ok (addFaces source spec.sides spec.count.toNat 0 s).1,
    (addFaces source spec.sides spec.count.toNat 0 s).2) = _
  rw [addFaces_eq]

theorem toInt_addFace (total : Int64) (face : UInt32) :
    (addFace total face).toInt = min Int64.maxValue.toInt (total.toInt + face.toNat) := by
  have exact : face.toUInt64.toInt64.toInt = face.toNat := by
    have small : face.toUInt64.toBitVec.toNat = face.toNat := UInt32.toNat_toUInt64 face
    have bound := face.toNat_lt
    show face.toUInt64.toBitVec.toInt = _
    rw [BitVec.toInt_eq_toNat_of_lt (by omega), small]
  have least : Int64.minValue.toInt ≤ total.toInt := Int64.minValue_le_toInt total
  rw [addFace, Clamped.toInt_add, exact]
  have order : Int64.minValue.toInt ≤ Int64.maxValue.toInt := by decide
  omega

/-- Holding each partial sum within 64 bits is holding the last one. -/
theorem toInt_foldl_addFace (faces : List UInt32) (total : Int64) :
    (faces.foldl addFace total).toInt =
      min Int64.maxValue.toInt (total.toInt + (faces.map UInt32.toNat).sum) := by
  induction faces generalizing total with
  | nil =>
      have greatest := Int64.toInt_le total
      simp only [List.foldl_nil, List.map_nil, List.sum_nil, Nat.cast_zero, add_zero]
      omega
  | cons face faces ih =>
      rw [List.foldl_cons, ih, toInt_addFace, List.map_cons, List.sum_cons, Nat.cast_add]
      omega

/-- A roll of a pool stays on its dice: as many faces as dice, each face on the die, and
a total between the least and the greatest sum of such faces that 64 bits hold. -/
def StaysOnDice (source : Source σ) (spec : Spec) (s : σ) : Prop :=
  let roll := Roll.plain spec source
  (roll.faces s).1.length = spec.count.toNat ∧
  (∀ face ∈ (roll.faces s).1, 1 ≤ face ∧ face ≤ spec.sides) ∧
  (spec.count ≠ 0 → ∃ total, (roll.total s).1 = .ok total ∧
    (spec.count.toNat : ℤ) ≤ total.toInt ∧
    total.toInt ≤ min (spec.count.toNat * spec.sides.toNat : ℤ) Int64.maxValue.toInt)

section UnitInterval

variable {sides : UInt32} {values : List Float}

theorem toNat_shown_of_overshoots {r : Float} (positive : sides ≠ 0) (h : Overshoots sides r) :
    (shown sides r).toNat = sides.toNat + 1 := by
  rw [shown, if_neg positive]
  exact toNat_draw_of_overshoots positive h

theorem shown_of_not_overshoots {r : Float} (positive : sides ≠ 0) (lower : 0.0 ≤ r)
    (upper : r < 1.0) (h : ¬ Overshoots sides r) : 1 ≤ shown sides r ∧ shown sides r ≤ sides := by
  rw [shown, if_neg positive]
  exact ⟨one_le_draw lower upper, draw_le positive lower upper h⟩

/-- Where a value of `[0, 1)` leads: to a face of the die, or to the number after its last. -/
theorem toNat_shown_of_unit {r : Float} (positive : sides ≠ 0) (lower : 0.0 ≤ r)
    (upper : r < 1.0) :
    1 ≤ (shown sides r).toNat ∧
      (shown sides r).toNat ≤ sides.toNat + if Overshoots sides r then 1 else 0 := by
  by_cases h : Overshoots sides r
  · rw [if_pos h, toNat_shown_of_overshoots positive h]
    omega
  · obtain ⟨least, greatest⟩ := shown_of_not_overshoots positive lower upper h
    rw [if_neg h]
    exact ⟨UInt32.le_iff_toNat_le.mp least, UInt32.le_iff_toNat_le.mp greatest⟩

theorem sum_shown_of_unit (positive : sides ≠ 0)
    (unit : ∀ r ∈ values, 0.0 ≤ r ∧ r < 1.0) :
    values.length ≤ ((values.map (shown sides)).map UInt32.toNat).sum ∧
      ((values.map (shown sides)).map UInt32.toNat).sum ≤
        values.length * sides.toNat + values.countP (Overshoots sides ·) := by
  induction values with
  | nil => simp
  | cons r values ih =>
      obtain ⟨lower, upper⟩ := ih fun r hr => unit r (List.mem_cons_of_mem _ hr)
      obtain ⟨hr0, hr1⟩ := unit r List.mem_cons_self
      obtain ⟨least, greatest⟩ := toNat_shown_of_unit positive hr0 hr1
      rw [List.map_cons, List.map_cons, List.sum_cons, List.length_cons, List.countP_cons,
        Nat.succ_mul]
      simp only [decide_eq_true_eq]
      omega

end UnitInterval

/-- The total of a pool rolled with values of `[0, 1)`. -/
theorem total_of_unit (source : Source σ) {spec : Spec} (s : σ) (sides : spec.sides ≠ 0)
    (count : spec.count ≠ 0)
    (unit : ∀ r ∈ (source.values spec.count.toNat s).1, 0.0 ≤ r ∧ r < 1.0) :
    ∃ total, (Dice.total source spec s).1 = .ok total ∧
      (spec.count.toNat : ℤ) ≤ total.toInt ∧
      total.toInt ≤ min
        (spec.count.toNat * spec.sides.toNat +
          (source.values spec.count.toNat s).1.countP (Overshoots spec.sides ·) : ℤ)
        Int64.maxValue.toInt := by
  have length : (source.values spec.count.toNat s).1.length = spec.count.toNat :=
    length_mapM_replicate _ _ s
  obtain ⟨lower, upper⟩ := sum_shown_of_unit sides unit
  rw [length] at lower upper
  refine ⟨_, congrArg Prod.fst (total_eq source count s), ?_⟩
  rw [faces_eq, toInt_foldl_addFace, Int64.toInt_zero, zero_add]
  dsimp only
  generalize (((source.values spec.count.toNat s).1.map (shown spec.sides)).map
    UInt32.toNat).sum = total at lower upper ⊢
  have small := spec.count.toNat_lt
  have greatest : Int64.maxValue.toInt = 2 ^ 63 - 1 := by decide
  zify at lower upper
  omega

/-- Over values of `[0, 1)` a pool stays on its dice exactly if none of its values overshoots.
A value that does leads to the number after the last face of its die, every other value to one
of the faces, and the total exceeds the greatest sum of faces by no more than the number of
values that overshoot. -/
theorem staysOnDice_iff (source : Source σ) (spec : Spec) (s : σ) (sides : spec.sides ≠ 0)
    (unit : ∀ r ∈ (source.values spec.count.toNat s).1, 0.0 ≤ r ∧ r < 1.0) :
    (StaysOnDice source spec s ↔
      ∀ r ∈ (source.values spec.count.toNat s).1, ¬ Overshoots spec.sides r) ∧
    List.Forall₂ (fun r face => if Overshoots spec.sides r then
        face.toNat = spec.sides.toNat + 1 else 1 ≤ face ∧ face ≤ spec.sides)
      (source.values spec.count.toNat s).1 ((Roll.plain spec source).faces s).1 ∧
    (spec.count ≠ 0 → ∃ total, ((Roll.plain spec source).total s).1 = .ok total ∧
      (spec.count.toNat : ℤ) ≤ total.toInt ∧
      total.toInt ≤ min
        (spec.count.toNat * spec.sides.toNat +
          (source.values spec.count.toNat s).1.countP (Overshoots spec.sides ·) : ℤ)
        Int64.maxValue.toInt) := by
  have total := total_of_unit source s sides
  have faces : ((Roll.plain spec source).faces s).1 =
      (source.values spec.count.toNat s).1.map (shown spec.sides) :=
    congrArg Prod.fst (faces_eq source spec s)
  refine ⟨⟨?_, ?_⟩, ?_, fun count => total count unit⟩
  · rintro ⟨-, onDie, -⟩ r hr overshoots
    rw [faces] at onDie
    have past := (onDie _ (List.mem_map_of_mem hr)).2
    rw [UInt32.le_iff_toNat_le, toNat_shown_of_overshoots sides overshoots] at past
    omega
  · intro noOvershoot
    refine ⟨length_faces source spec s, ?_, ?_⟩
    · rw [faces, List.forall_mem_map]
      intro r hr
      obtain ⟨lower, upper⟩ := unit r hr
      exact shown_of_not_overshoots sides lower upper (noOvershoot r hr)
    · intro count
      have zero : (source.values spec.count.toNat s).1.countP (Overshoots spec.sides ·) = 0 := by
        rw [List.countP_eq_zero]
        intro r hr
        exact decide_eq_true_iff.not.mpr (noOvershoot r hr)
      have sum := total count unit
      rw [zero, Nat.cast_zero, add_zero] at sum
      exact sum
  · rw [faces, List.forall₂_map_right_iff, List.forall₂_same]
    intro r hr
    obtain ⟨lower, upper⟩ := unit r hr
    by_cases overshoots : Overshoots spec.sides r
    · rw [if_pos overshoots]
      exact toNat_shown_of_overshoots sides overshoots
    · rw [if_neg overshoots]
      exact shown_of_not_overshoots sides lower upper overshoots

/-- The greatest value stays on dice of six sides and leaves those of eight. -/
theorem staysOnDice_of_belowOne :
    StaysOnDice (Source.constant belowOne : Source Unit) ⟨2, 6⟩ () ∧
      ¬ StaysOnDice (Source.constant belowOne : Source Unit) ⟨2, 8⟩ () := by
  have six := staysOnDice_iff (Source.constant belowOne : Source Unit) ⟨2, 6⟩ () (by decide)
    (by decide)
  have eight := staysOnDice_iff (Source.constant belowOne : Source Unit) ⟨2, 8⟩ () (by decide)
    (by decide)
  refine ⟨six.1.mpr (by decide), ?_⟩
  rw [eight.1]
  decide

/-- Values of `[0, 1)` alone do not keep a pool on its dice: a die of one side shows two. -/
theorem exists_unit_source_not_staysOnDice :
    ¬ ∀ (source : Source Unit) (spec : Spec) (s : Unit), spec.sides ≠ 0 →
      (∀ s, 0.0 ≤ (source.next s).1 ∧ (source.next s).1 < 1.0) → StaysOnDice source spec s := by
  intro always
  have unit : 0.0 ≤ belowOne ∧ belowOne < 1.0 := by decide
  have stays := always (Source.constant belowOne) ⟨1, 1⟩ () (by decide) fun _ => unit
  have shows : (2 : UInt32) ∈ ((Roll.plain ⟨1, 1⟩ (Source.constant belowOne)).faces ()).1 := by
    decide
  exact absurd (stays.2.1 2 shows).2 (by decide)

end Dice

end DiceSampling
