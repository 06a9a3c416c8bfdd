import CharacterSheet.Severity

/-!
# Why a statistic cannot be worked out

* `AggregationError` — a custom property's formula failed, or is missing.
-/

namespace CharacterSheet

/-- Why a statistic cannot be worked out. -/
inductive AggregationError
  | formula (statistic : String) (source : FormulaError)
  | missingFormula (statistic : String)
  deriving DecidableEq, Repr

namespace AggregationError

/-- The statistic that an error is about. -/
def statistic : AggregationError → String
  | formula statistic _ => statistic
  | missingFormula statistic => statistic

/-- The wording of an error. -/
def message : AggregationError → String
  | formula statistic source => s!"formula for statistic '{statistic}' failed: {source.message}"
  | missingFormula statistic => s!"custom property for statistic '{statistic}' has no formula"

/-- A formula that fails is as bad as its failure, and one that is missing is invalid content. -/
def severity : AggregationError → Severity
  | formula _ source => source.severity
  | missingFormula _ => .validation

/-- The identifier of an error. -/
def code : AggregationError → String
  | formula _ source => source.code
  | missingFormula _ => "AGGREGATION_MISSING_FORMULA"

end AggregationError

end CharacterSheet
