import CharacterSheet.Aggregation.Error
import CharacterSheet.Decimal.Shortest

/-!
# What can go wrong with a character

* `EntityError` — why an operation on a character is turned down, or a query has no answer.
-/

namespace CharacterSheet

/-- Why an operation on a character is turned down, or a query has no answer. -/
inductive EntityError
  | unknownStatistic (name : String)
  | duplicateStatistic (name : String)
  | duplicateEnhancer (name : String)
  | invalidAmount (name : String) (amount : Float)
  | aggregation (error : AggregationError)
  deriving DecidableEq, Repr

namespace EntityError

/-- The wording of an error. -/
def message : EntityError → String
  | unknownStatistic name => s!"statistic '{name}' is not registered"
  | duplicateStatistic name => s!"statistic '{name}' is already registered"
  | duplicateEnhancer name => s!"enhancer '{name}' is already attached"
  | invalidAmount name amount =>
    s!"invalid amount {Decimal.text amount} for '{name}': must be finite and non-negative"
  | aggregation error => error.message

/-- What is turned down is invalid; a failed query is as bad as its cause. -/
def severity : EntityError → Severity
  | aggregation error => error.severity
  | _ => .validation

/-- The identifier of an error. -/
def code : EntityError → String
  | unknownStatistic _ => "ENTITY_UNKNOWN_STATISTIC"
  | duplicateStatistic _ => "ENTITY_DUPLICATE_STATISTIC"
  | duplicateEnhancer _ => "ENTITY_DUPLICATE_ENHANCER"
  | invalidAmount .. => "ENTITY_INVALID_AMOUNT"
  | aggregation error => error.code

end EntityError

end CharacterSheet
