import CharacterSheet.Formula.Error

/-!
# How bad an error is

* `Severity` — what can be done about an error;
* `FormulaError.severity`, `FormulaError.code` — the severity of a formula's failure, and its
  stable identifier.
-/

namespace CharacterSheet

/-- What can be done about an error. -/
inductive Severity
  /-- The same call may succeed once the inputs change. -/
  | recoverable
  /-- The input or the content is not valid. -/
  | validation
  /-- The content contradicts itself in a way that loading it should have ruled out. -/
  | internal
  /-- What the error happened in can no longer be used. -/
  | fatal
  deriving DecidableEq, Repr

namespace Severity

/-- All severities. -/
def all : List Severity := [recoverable, validation, internal, fatal]

/-- The name of a severity. -/
def text : Severity → String
  | recoverable => "recoverable"
  | validation => "validation"
  | internal => "internal"
  | fatal => "fatal"

/-- Whether trying again may help. -/
def isRecoverable : Severity → Bool
  | recoverable => true
  | _ => false

/-- Whether the error shows a defect. -/
def isInternal : Severity → Bool
  | internal | fatal => true
  | _ => false

end Severity

/-- A formula that cannot be read is invalid content; one that fails may succeed later. -/
def FormulaError.severity : FormulaError → Severity
  | parseRejected .. => .validation
  | evalFailed .. => .recoverable

/-- The identifier of a formula's failure. -/
def FormulaError.code : FormulaError → String
  | parseRejected .. => "FORMULA_PARSE_REJECTED"
  | evalFailed .. => "FORMULA_EVAL_FAILED"

end CharacterSheet
