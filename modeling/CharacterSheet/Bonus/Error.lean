import CharacterSheet.Decimal.Shortest
import CharacterSheet.Severity

/-!
# What can go wrong with bonuses

* `BonusError` — why an operation on bonuses is turned down, or a total cannot be worked out.
-/

namespace CharacterSheet

/-- Why an operation on bonuses is turned down, or a total cannot be worked out. -/
inductive BonusError
  | unknownName (name : String)
  | duplicate (name : String)
  | invalidValue (name : String) (value : Float)
  /-- Each bonus on the path is fed by the next one, and the last is the first again. -/
  | cycleDetected (path : List String)
  | depthExceeded (name : String) (max : Nat)
  deriving DecidableEq, Repr

namespace BonusError

/-- The wording of an error. -/
def message : BonusError → String
  | unknownName name => s!"bonus '{name}' is not in the catalog"
  | duplicate name => s!"bonus '{name}' already exists"
  | invalidValue name value => s!"invalid value {Decimal.text value} for bonus '{name}'"
  | cycleDetected path => "bonus enhancement cycle: " ++ String.intercalate " -> " path
  | depthExceeded name max => s!"bonus '{name}' is nested deeper than {max} levels"

/-- What is turned down is invalid; a failing total shows that the content contradicts itself. -/
def severity : BonusError → Severity
  | unknownName _ | duplicate _ | invalidValue .. => .validation
  | cycleDetected _ | depthExceeded .. => .internal

/-- The identifier of an error. -/
def code : BonusError → String
  | unknownName _ => "BONUS_UNKNOWN_NAME"
  | duplicate _ => "BONUS_DUPLICATE"
  | invalidValue .. => "BONUS_INVALID_VALUE"
  | cycleDetected _ => "BONUS_CYCLE_DETECTED"
  | depthExceeded .. => "BONUS_DEPTH_EXCEEDED"

end BonusError

end CharacterSheet
