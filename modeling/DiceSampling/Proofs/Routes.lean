/-
# The ways to a total

Dice can be named by notation or by a specification, and rolled as they are named, read first
and rolled after, or built into a roll whose total is taken.  Every way ends the same from
every state of the source, and takes the same values.  A text that is not notation is the same
fault on all of them, with the cause that checking the text gives, and nothing is taken.
-/

import DiceSampling.Proofs.CanonicalNotation
import DiceSampling.Proofs.Outcome
import DiceSampling.Proofs.PoolTotals

namespace DiceSampling

variable {σ ι : Type}

/-- A way from a name of dice to their total. -/
inductive Route where
  /-- The notation is rolled. -/
  | text
  /-- The name is rolled, be it notation or a specification. -/
  | input
  /-- The specification is read, if it has to be, and its dice are rolled. -/
  | dice
  /-- A roll is built of the name, and its total is taken. -/
  | built
  deriving DecidableEq

/-- A check fails exactly as reading does. -/
theorem Notation.check_eq_error_iff {text : String} {cause : NotationError} :
    check text = .error cause ↔ read text = .error cause := by
  rw [check]
  cases read text <;> simp [Except.map]

namespace Dice

/-- Dice that are rolled never turn out to be unreadable. -/
theorem total_fst_ne_unreadable (source : Source σ) (spec : Spec) (s : σ) (cause : NotationError) :
    (total source spec s).1 ≠ .error (.unreadable cause) := by
  by_cases noDice : spec.count = 0
  · rw [total_of_count_eq_zero source noDice]
    exact fun same => nomatch same
  · rw [total_eq source noDice]
    exact fun same => nomatch same

end Dice

namespace Route

/-- The total of a roll that is built over a source. -/
def totalOfBuilt (spare source : Source σ) (named : Input) : Act σ Int64 := do
  let roll ← liftExcept (Roll.build spare { input := named, source := some source })
  roll.total

/-- The total of the dice that a text names, on one of the ways. -/
def ofText (spare source : Source σ) (text : String) : Route → Act σ Int64
  | .text => Dice.totalOfText source text
  | .input => Dice.totalOfInput source (.text text)
  | .dice => fun s =>
    match Notation.read text with
    | .error cause => (.error (.unreadable cause), s)
    | .ok spec => Dice.total source spec s
  | .built => totalOfBuilt spare source (.text text)

/-- The total of the dice of a specification, on one of the ways. -/
def ofSpec (spare source : Source σ) (spec : Spec) : Route → Act σ Int64
  | .text => Dice.totalOfText source spec.text
  | .input => Dice.totalOfInput source (.spec spec)
  | .dice => Dice.total source spec
  | .built => totalOfBuilt spare source (.spec spec)

section Agreement

variable (spare source : Source σ) {text : String} (route : Route)

/-- A text that cannot be read is a fault, and the state stays. -/
theorem ofText_of_error {cause : NotationError} (unread : Notation.read text = .error cause)
    (s : σ) : route.ofText spare source text s = (.error (.unreadable cause), s) := by
  cases route with
  | text =>
      rw [ofText, Dice.totalOfText, unread]
      rfl
  | input =>
      rw [ofText, Dice.totalOfInput, Input.read, unread]
      rfl
  | dice =>
      simp only [ofText, unread]
  | built =>
      rw [ofText, totalOfBuilt, Roll.build, Input.read, unread]
      rfl

/-- A text that can be read leads to the total of its dice. -/
theorem ofText_of_ok {spec : Spec} (reads : Notation.read text = .ok spec) :
    route.ofText spare source text = Dice.total source spec := by
  cases route with
  | text =>
      rw [ofText, Dice.totalOfText, reads]
      rfl
  | input =>
      rw [ofText, Dice.totalOfInput, Input.read, reads]
      rfl
  | dice =>
      funext s
      simp only [ofText, reads]
  | built =>
      rw [ofText, totalOfBuilt, Roll.build, Input.read, reads]
      rfl

/-- A specification leads to the total of its dice, also by way of its notation. -/
theorem ofSpec_eq (spec : Spec) : route.ofSpec spare source spec = Dice.total source spec := by
  cases route with
  | text => exact ofText_of_ok spare source .text (Notation.read_text spec)
  | input => rfl
  | dice => rfl
  | built => rfl

end Agreement

/-- From every state the ways from a text end in the same total or the same fault, and in the
same state. The fault is that of an unreadable text exactly if checking the text fails, with
the same cause, and then the state stays. The ways from a specification, also those that go
through its notation, all give the total of its dice. A log of the source shows that all ways
take the same number of values: none for a text that is unreadable, and one for each die of a
specification. -/
theorem total_agree (spare source : Source σ) (s : σ) :
    (∀ text, ∃ outcome : Outcome σ Int64,
      (∀ route : Route, route.ofText spare source text s = outcome) ∧
      ∀ cause, (outcome.1 = .error (.unreadable cause) ↔ Notation.check text = .error cause) ∧
        (Notation.check text = .error cause → outcome.2 = s)) ∧
    (∀ (spec : Spec) (route : Route),
      route.ofSpec spare source spec s = Dice.total source spec s ∧
        route.ofText spare source spec.text s = Dice.total source spec s) ∧
    ∀ (spare' : Source (σ × List ι)) (name : ι) (log : List ι),
      (∀ text, ∃ taken, (∀ cause, Notation.check text = .error cause → taken = 0) ∧
        ∀ route : Route, (route.ofText spare' (source.logged name) text (s, log)).2.2 =
          log ++ List.replicate taken name) ∧
      ∀ (spec : Spec) (route : Route),
        (route.ofSpec spare' (source.logged name) spec (s, log)).2.2 =
          log ++ List.replicate spec.count.toNat name := by
  refine ⟨fun text => ?_, fun spec route => ⟨?_, ?_⟩, fun spare' name log =>
    ⟨fun text => ?_, fun spec route => ?_⟩⟩
  · cases reads : Notation.read text with
    | error cause =>
        refine ⟨_, fun route => route.ofText_of_error spare source reads s, fun cause' => ?_⟩
        rw [Notation.check_eq_error_iff, reads]
        simp
    | ok spec =>
        refine ⟨_, fun route => congrFun (route.ofText_of_ok spare source reads) s,
          fun cause => ?_⟩
        rw [Notation.check_eq_error_iff, reads]
        simp [Dice.total_fst_ne_unreadable]
  · rw [ofSpec_eq]
  · rw [ofText_of_ok spare source route (Notation.read_text spec)]
  · cases reads : Notation.read text with
    | error cause =>
        refine ⟨0, fun _ _ => rfl, fun route => ?_⟩
        rw [route.ofText_of_error spare' _ reads, List.replicate_zero, List.append_nil]
    | ok spec =>
        refine ⟨spec.count.toNat, fun cause fails => ?_, fun route => ?_⟩
        · rw [Notation.check_eq_error_iff, reads] at fails
          cases fails
        · rw [route.ofText_of_ok spare' _ reads, Dice.total_logged]
  · rw [ofSpec_eq, Dice.total_logged]

end Route

end DiceSampling
