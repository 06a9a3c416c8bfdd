import CharacterSheet.Config
import CharacterSheet.Record.Formula
import CharacterSheet.Severity

/-!
# Records of configuration and severities

* `EngineConfig.toJson`, `EngineConfig.ofJson?` — every bound is written, and may be left out;
* `Severity.toJson`, `Severity.ofJson?` — severities by name.
-/

namespace CharacterSheet

open Record

namespace EngineConfig

/-- The record of a configuration. -/
def toJson (c : EngineConfig) : Json :=
  .object [("formula_limits", c.formulaLimits.toJson), ("max_bonus_depth", .ofNat c.maxBonusDepth)]

/-- The configuration of a record. What is left out has its default. -/
def ofJson? (record : Json) : Option EngineConfig := do
  let fields ← fields? ["formula_limits", "max_bonus_depth"] record
  let default : EngineConfig := {}
  let formulaLimits ← defaulted fields "formula_limits" default.formulaLimits ParseLimits.ofJson?
  let maxBonusDepth ← defaulted fields "max_bonus_depth" default.maxBonusDepth Json.toNat?
  return ⟨formulaLimits, maxBonusDepth⟩

end EngineConfig

namespace Severity

/-- The name of a severity in records. -/
def recordName : Severity → String
  | recoverable => "Recoverable"
  | validation => "Validation"
  | internal => "Internal"
  | fatal => "Fatal"

/-- The record of a severity. -/
def toJson (s : Severity) : Json := .string s.recordName

/-- The severity of a record. -/
def ofJson? : Json → Option Severity := unitOf? all recordName

end Severity

end CharacterSheet
