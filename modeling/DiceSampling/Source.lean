/-
# Sources of random values

A source hands out numbers and changes a state of type `σ`.  Nothing is assumed
about the state: it may be one generator, a table of several, or a script, and
sources that change the same state are shared.  Values are meant to lie in
`[0, 1)`, but a source may give any float.
-/

import DiceSampling.Fault

namespace DiceSampling

/-- A computation that changes a state and may end in a fault.  The state it
leaves behind is known in both cases. -/
abbrev Act (σ : Type) := ExceptT Fault (StateM σ)

/-- Where random values come from. -/
structure Source (σ : Type) where
  /-- The place of the source in a numbered table of sources, if it has one. -/
  label : Option Nat
  /-- Takes the next value. -/
  next : StateM σ Float

namespace Source

/-- The source that gives one value for ever. -/
def constant {σ : Type} (r : Float) : Source σ := ⟨none, pure r⟩

end Source

end DiceSampling
