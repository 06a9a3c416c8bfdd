import CharacterSheet.Formula.Operator
import CharacterSheet.Text.Quoted

/-!
# What can be wrong with a formula

* `Construct` — the constructs of general-purpose languages that formulas turn away by name;
* `ParseError` — why a text is no formula;
* `EvalError` — why a formula has no value;
* `FormulaError` — either, with the text of the formula it happened in.

Each has one `message`.
-/

namespace CharacterSheet

/-- A construct that formulas do not have. -/
inductive Construct
  | assignment
  | attributeAccess
  | subscript
  | stringLiteral
  | statementSeparator
  | comparison
  | conditional
  | lambda
  | comprehension
  | booleanLogic
  | statement
  | operator
  deriving DecidableEq, Repr

/-- The name of a construct in messages. -/
def Construct.text : Construct → String
  | assignment => "assignment"
  | attributeAccess => "attribute_access"
  | subscript => "subscript"
  | stringLiteral => "string_literal"
  | statementSeparator => "statement_separator"
  | comparison => "comparison"
  | conditional => "conditional"
  | lambda => "lambda"
  | comprehension => "comprehension"
  | booleanLogic => "boolean_logic"
  | statement => "statement"
  | operator => "operator"

/-- Why a text is no formula. Positions count bytes of UTF-8. -/
inductive ParseError
  | multiline
  | comment (position : Nat)
  | tooLong (len max : Nat)
  | tooDeep (max : Nat)
  | disallowed (construct : Construct) (position : Nat)
  | unexpectedCharacter (ch : Char) (position : Nat)
  | malformedNumber (text : String) (position : Nat)
  | unexpectedToken (found : String) (position : Nat)
  | unexpectedEnd
  deriving DecidableEq, Repr

/-- The wording of a parse error. -/
def ParseError.message : ParseError → String
  | multiline => "formula must be a single line"
  | comment position => s!"comment marker at byte {position}"
  | tooLong len max => s!"formula is {len} bytes long, limit is {max}"
  | tooDeep max => s!"formula nesting exceeds depth {max}"
  | disallowed construct position => s!"{construct.text} is not allowed (byte {position})"
  | unexpectedCharacter ch position =>
    s!"unexpected character {Text.quotedChar ch} at byte {position}"
  | malformedNumber text position =>
    s!"malformed number {Text.quotedString text} at byte {position}"
  | unexpectedToken found position => s!"unexpected {found} at byte {position}"
  | unexpectedEnd => "unexpected end of formula"

/-- Why a formula has no value. -/
inductive EvalError
  | divisionByZero (operator : BinaryOp)
  | domain (function : String)
  | unknownFunction (name : String)
  | arity (name expected : String) (found : Nat)
  | unboundVariable (name : String)
  | nonIntegral (operator : String)
  | invalidShift (operator : BinaryOp)
  | nonFinite
  deriving DecidableEq, Repr

/-- The wording of an evaluation error. -/
def EvalError.message : EvalError → String
  | divisionByZero operator => s!"division by zero in `{operator.symbol}`"
  | domain function => s!"math domain error in {function}()"
  | unknownFunction name => s!"unknown function {name}()"
  | arity name expected found => s!"{name}() takes {expected} argument(s), got {found}"
  | unboundVariable name => s!"unbound variable {name}"
  | nonIntegral operator => s!"`{operator}` requires integral operands"
  | invalidShift operator => s!"invalid shift in `{operator.symbol}`"
  | nonFinite => "result is not a finite number"

/-- A failure of a formula, with the text of the formula. -/
inductive FormulaError
  | parseRejected (expression : String) (reason : ParseError)
  | evalFailed (expression subExpression : String) (reason : EvalError)
  deriving DecidableEq, Repr

/-- The wording of a formula's failure. -/
def FormulaError.message : FormulaError → String
  | parseRejected expression reason => s!"formula `{expression}` rejected: {reason.message}"
  | evalFailed expression subExpression reason =>
    s!"formula `{expression}` failed at `{subExpression}`: {reason.message}"

/-- The formula that a failure is about. -/
def FormulaError.expression : FormulaError → String
  | parseRejected expression _ => expression
  | evalFailed expression _ _ => expression

end CharacterSheet
