/-
# Faults

What can go wrong when rolls are built and totals are taken.
-/

import DiceSampling.Notation

namespace DiceSampling

/-- Why there is no total. -/
inductive Fault where
  /-- The dice were named by a text that does not denote a specification. -/
  | unreadable (cause : NotationError)
  /-- Dice were to be rolled, and there are none of them. -/
  | nonPositiveCount (count : UInt32)
  /-- There is no roll whose total could be taken. -/
  | noRolls
  deriving DecidableEq, Repr

namespace Fault

/-- What is wrong, in words. -/
def message : Fault → String
  | unreadable cause => "Parse error - " ++ cause.message
  | nonPositiveCount count => "count must be positive (got " ++ Decimal.text count.toNat ++ ")"
  | noRolls => "no rolls to modify"

end Fault

end DiceSampling
