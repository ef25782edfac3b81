/-
# Outcomes of computations

A computation takes a state to an outcome: a result or a fault, and the state that is
left.  What the steps of a computation do is read off their outcomes.
-/

import DiceSampling.Source
import Mathlib.Tactic.Common

namespace DiceSampling

/-- What a computation ends in: a result or a fault, and the state it leaves. -/
abbrev Outcome (σ α : Type) := Except Fault α × σ

namespace Outcome

variable {σ α β γ : Type}

/-- The outcome with its result changed.  A fault and the state stay. -/
def map (f : α → β) : Outcome σ α → Outcome σ β
  | (.ok a, s) => (.ok (f a), s)
  | (.error fault, s) => (.error fault, s)

/-- The outcome of going on with a result.  A fault ends it. -/
def andThen : Outcome σ α → (α → σ → Outcome σ β) → Outcome σ β
  | (.ok a, s), next => next a s
  | (.error fault, s), _ => (.error fault, s)

theorem map_id (outcome : Outcome σ α) : map id outcome = outcome := by
  obtain ⟨result, s⟩ := outcome
  cases result <;> rfl

/-- The state is the same, whatever is made of the result. -/
theorem snd_map (f : α → β) (outcome : Outcome σ α) : (map f outcome).2 = outcome.2 := by
  obtain ⟨result, s⟩ := outcome
  cases result <;> rfl

theorem map_map (f : α → β) (g : β → γ) (outcome : Outcome σ α) :
    map g (map f outcome) = map (g ∘ f) outcome := by
  obtain ⟨result, s⟩ := outcome
  cases result <;> rfl

/-- Only the value that a result has matters. -/
theorem map_congr {f g : α → β} {outcome : Outcome σ α}
    (same : ∀ a s, outcome = (.ok a, s) → f a = g a) : map f outcome = map g outcome := by
  obtain ⟨result, s⟩ := outcome
  cases result with
  | error fault => rfl
  | ok a => rw [map, map, same a s rfl]

theorem map_andThen (f : α → β) (outcome : Outcome σ α) (next : β → σ → Outcome σ γ) :
    andThen (map f outcome) next = andThen outcome fun a => next (f a) := by
  obtain ⟨result, s⟩ := outcome
  cases result <;> rfl

theorem andThen_map (f : β → γ) (outcome : Outcome σ α) (next : α → σ → Outcome σ β) :
    map f (andThen outcome next) = andThen outcome fun a s => map f (next a s) := by
  obtain ⟨result, s⟩ := outcome
  cases result <;> rfl

/-- A result comes from a result of the first step. -/
theorem andThen_eq_ok {outcome : Outcome σ α} {next : α → σ → Outcome σ β} {b : β} {s' : σ}
    (h : andThen outcome next = (.ok b, s')) :
    ∃ a s, outcome = (.ok a, s) ∧ next a s = (.ok b, s') := by
  obtain ⟨result, s⟩ := outcome
  cases result with
  | error fault => cases h
  | ok a => exact ⟨a, s, rfl, h⟩

/-- A changed result comes from a result. -/
theorem map_eq_ok {f : α → β} {outcome : Outcome σ α} {b : β} {s : σ}
    (h : map f outcome = (.ok b, s)) : ∃ a, outcome = (.ok a, s) ∧ f a = b := by
  obtain ⟨result, s'⟩ := outcome
  cases result with
  | error fault => cases h
  | ok a =>
      cases h
      exact ⟨a, rfl, rfl⟩

end Outcome

namespace Act

variable {σ α β : Type}

theorem bind_apply (act : Act σ α) (next : α → Act σ β) (s : σ) :
    (act >>= next) s = Outcome.andThen (act s) next := by
  show ExceptT.bindCont next (act s).1 (act s).2 = _
  rcases act s with ⟨result, s⟩
  cases result <;> rfl

theorem map_apply (f : α → β) (act : Act σ α) (s : σ) :
    (f <$> act) s = Outcome.map f (act s) := by
  rw [← bind_pure_comp, bind_apply]
  rcases act s with ⟨result, s⟩
  cases result <;> rfl

end Act

end DiceSampling
