import CharacterSheet.Formula.Limits

/-!
# Configuration

* `EngineConfig` — the bounds that can be set from outside;
* `isReservedInput` — the names that formulas of statistics use for the other modifiers' results.
-/

namespace CharacterSheet

/-- The bounds on the work that content may cause. -/
structure EngineConfig where
  /-- The limits for the formulas of custom properties. -/
  formulaLimits : ParseLimits := {}
  /-- How many bonuses long a chain of enhancements may be. -/
  maxBonusDepth : Nat := 64
  deriving DecidableEq, Repr

/-- The inputs that every formula of a statistic has, whatever the keywords are called. -/
inductive ReservedInput
  /-- The base value of the statistic. -/
  | baseValue
  /-- The sum of the additive modifiers. -/
  | additions
  /-- The sum of the multiplicative modifiers, and at least one. -/
  | multiplicators
  /-- The diminishing stack of the modifiers that stack so. -/
  | additiveMultiplicatively
  deriving DecidableEq, Repr

namespace ReservedInput

/-- All reserved inputs. -/
def all : List ReservedInput := [baseValue, additions, multiplicators, additiveMultiplicatively]

/-- The name of a reserved input in formulas. -/
def name : ReservedInput → String
  | baseValue => "base_value"
  | additions => "ADDITIONS"
  | multiplicators => "MULTIPLICATORS"
  | additiveMultiplicatively => "ADDITIVE_MULTIPLICATIVELY"

/-- The reserved input of a given name. -/
def ofName? (name : String) : Option ReservedInput := all.find? fun i => i.name == name

end ReservedInput

/-- Whether a name is that of a reserved input. -/
def isReservedInput (name : String) : Bool := (ReservedInput.ofName? name).isSome

end CharacterSheet
