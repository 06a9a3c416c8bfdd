/-!
# Limits on formulas

* `ParseLimits` — how long and how deeply nested a formula may be.
-/

namespace CharacterSheet

/-- Bounds on the cost of reading one formula. -/
structure ParseLimits where
  /-- The greatest length in bytes. -/
  maxLength : Nat := 1024
  /-- The greatest nesting of parentheses, arguments, signs and exponents. -/
  maxDepth : Nat := 64
  deriving DecidableEq, Repr

end CharacterSheet
