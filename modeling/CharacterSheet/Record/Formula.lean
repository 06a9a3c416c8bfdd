import CharacterSheet.Formula
import CharacterSheet.Record.Shape

/-!
# Records of formulas, their limits and their errors

Each type has `toJson`, its record, and `ofJson?`, the value of a record. A formula is recorded as
its text, and has to be readable under the default limits.
-/

namespace CharacterSheet

open Record

namespace UnaryOp

/-- All unary operators. -/
def all : List UnaryOp := [plus, minus, invert]

/-- The name of a unary operator in records. -/
def recordName : UnaryOp → String
  | plus => "Plus"
  | minus => "Minus"
  | invert => "Invert"

/-- The unary operator of a record. -/
def ofJson? : Json → Option UnaryOp := unitOf? all recordName

end UnaryOp

namespace BinaryOp

/-- All binary operators. -/
def all : List BinaryOp :=
  [add, sub, mul, div, floorDiv, mod, pow, bitOr, bitAnd, bitXor, shiftLeft, shiftRight]

/-- The name of a binary operator in records. -/
def recordName : BinaryOp → String
  | add => "Add"
  | sub => "Sub"
  | mul => "Mul"
  | div => "Div"
  | floorDiv => "FloorDiv"
  | mod => "Mod"
  | pow => "Pow"
  | bitOr => "BitOr"
  | bitAnd => "BitAnd"
  | bitXor => "BitXor"
  | shiftLeft => "Shl"
  | shiftRight => "Shr"

/-- The record of a binary operator. -/
def toJson (op : BinaryOp) : Json := .string op.recordName

/-- The binary operator of a record. -/
def ofJson? : Json → Option BinaryOp := unitOf? all recordName

end BinaryOp

namespace Construct

/-- All constructs. -/
def all : List Construct :=
  [assignment, attributeAccess, subscript, stringLiteral, statementSeparator, comparison,
   conditional, lambda, comprehension, booleanLogic, statement, operator]

/-- The name of a construct in records. -/
def recordName : Construct → String
  | assignment => "Assignment"
  | attributeAccess => "AttributeAccess"
  | subscript => "Subscript"
  | stringLiteral => "StringLiteral"
  | statementSeparator => "StatementSeparator"
  | comparison => "Comparison"
  | conditional => "Conditional"
  | lambda => "Lambda"
  | comprehension => "Comprehension"
  | booleanLogic => "BooleanLogic"
  | statement => "Statement"
  | operator => "Operator"

/-- The record of a construct. -/
def toJson (c : Construct) : Json := .string c.recordName

/-- The construct of a record. -/
def ofJson? : Json → Option Construct := unitOf? all recordName

end Construct

namespace ParseLimits

/-- The record of limits. -/
def toJson (limits : ParseLimits) : Json :=
  .object [("max_len", .ofNat limits.maxLength), ("max_depth", .ofNat limits.maxDepth)]

/-- The limits of a record. What is left out has its default. -/
def ofJson? (record : Json) : Option ParseLimits := do
  let fields ← fields? ["max_len", "max_depth"] record
  let default : ParseLimits := {}
  let maxLength ← defaulted fields "max_len" default.maxLength Json.toNat?
  let maxDepth ← defaulted fields "max_depth" default.maxDepth Json.toNat?
  return ⟨maxLength, maxDepth⟩

end ParseLimits

namespace ParseError

/-- The record of a parse error. -/
def toJson : ParseError → Json
  | multiline => .string "Multiline"
  | comment position => tagged "Comment" [("position", .ofNat position)]
  | tooLong len max => tagged "TooLong" [("len", .ofNat len), ("max", .ofNat max)]
  | tooDeep max => tagged "TooDeep" [("max", .ofNat max)]
  | disallowed construct position =>
    tagged "Disallowed" [("construct", construct.toJson), ("position", .ofNat position)]
  | unexpectedCharacter ch position =>
    tagged "UnexpectedCharacter" [("ch", .string ch.toString), ("position", .ofNat position)]
  | malformedNumber text position =>
    tagged "MalformedNumber" [("text", .string text), ("position", .ofNat position)]
  | unexpectedToken found position =>
    tagged "UnexpectedToken" [("found", .string found), ("position", .ofNat position)]
  | unexpectedEnd => .string "UnexpectedEnd"

/-- The parse error of a record. -/
def ofJson? (record : Json) : Option ParseError := do
  let (name, payload) ← variant? record
  match name with
  | "Multiline" => unitVariant payload multiline
  | "UnexpectedEnd" => unitVariant payload unexpectedEnd
  | "Comment" =>
    let fields ← variantFields payload
    let position ← required fields "position" Json.toNat?
    return comment position
  | "TooLong" =>
    let fields ← variantFields payload
    let len ← required fields "len" Json.toNat?
    let max ← required fields "max" Json.toNat?
    return tooLong len max
  | "TooDeep" =>
    let fields ← variantFields payload
    let max ← required fields "max" Json.toNat?
    return tooDeep max
  | "Disallowed" =>
    let fields ← variantFields payload
    let construct ← required fields "construct" Construct.ofJson?
    let position ← required fields "position" Json.toNat?
    return disallowed construct position
  | "UnexpectedCharacter" =>
    let fields ← variantFields payload
    let ch ← required fields "ch" Json.toChar?
    let position ← required fields "position" Json.toNat?
    return unexpectedCharacter ch position
  | "MalformedNumber" =>
    let fields ← variantFields payload
    let text ← required fields "text" Json.toText?
    let position ← required fields "position" Json.toNat?
    return malformedNumber text position
  | "UnexpectedToken" =>
    let fields ← variantFields payload
    let found ← required fields "found" Json.toText?
    let position ← required fields "position" Json.toNat?
    return unexpectedToken found position
  | _ => none

end ParseError

namespace EvalError

/-- The record of an evaluation error. -/
def toJson : EvalError → Json
  | divisionByZero operator => tagged "DivisionByZero" [("operator", operator.toJson)]
  | domain function => tagged "Domain" [("function", .string function)]
  | unknownFunction name => tagged "UnknownFunction" [("name", .string name)]
  | arity name expected found =>
    tagged "Arity" [("name", .string name), ("expected", .string expected), ("found", .ofNat found)]
  | unboundVariable name => tagged "UnboundVariable" [("name", .string name)]
  | nonIntegral operator => tagged "NonIntegral" [("operator", .string operator)]
  | invalidShift operator => tagged "InvalidShift" [("operator", operator.toJson)]
  | nonFinite => .string "NonFinite"

/-- The evaluation error of a record. -/
def ofJson? (record : Json) : Option EvalError := do
  let (name, payload) ← variant? record
  match name with
  | "NonFinite" => unitVariant payload nonFinite
  | "DivisionByZero" =>
    let fields ← variantFields payload
    let operator ← required fields "operator" BinaryOp.ofJson?
    return divisionByZero operator
  | "Domain" =>
    let fields ← variantFields payload
    let function ← required fields "function" Json.toText?
    return domain function
  | "UnknownFunction" =>
    let fields ← variantFields payload
    let name ← required fields "name" Json.toText?
    return unknownFunction name
  | "Arity" =>
    let fields ← variantFields payload
    let name ← required fields "name" Json.toText?
    let expected ← required fields "expected" Json.toText?
    let found ← required fields "found" Json.toNat?
    return arity name expected found
  | "UnboundVariable" =>
    let fields ← variantFields payload
    let name ← required fields "name" Json.toText?
    return unboundVariable name
  | "NonIntegral" =>
    let fields ← variantFields payload
    let operator ← required fields "operator" Json.toText?
    return nonIntegral operator
  | "InvalidShift" =>
    let fields ← variantFields payload
    let operator ← required fields "operator" BinaryOp.ofJson?
    return invalidShift operator
  | _ => none

end EvalError

namespace FormulaError

/-- The record of a formula's failure. -/
def toJson : FormulaError → Json
  | parseRejected expression reason =>
    tagged "ParseRejected" [("expression", .string expression), ("reason", reason.toJson)]
  | evalFailed expression subExpression reason =>
    tagged "EvalFailed" [("expression", .string expression),
      ("sub_expression", .string subExpression), ("reason", reason.toJson)]

/-- The formula's failure of a record. -/
def ofJson? (record : Json) : Option FormulaError := do
  let (name, payload) ← variant? record
  match name with
  | "ParseRejected" =>
    let fields ← variantFields payload
    let expression ← required fields "expression" Json.toText?
    let reason ← required fields "reason" ParseError.ofJson?
    return parseRejected expression reason
  | "EvalFailed" =>
    let fields ← variantFields payload
    let expression ← required fields "expression" Json.toText?
    let subExpression ← required fields "sub_expression" Json.toText?
    let reason ← required fields "reason" EvalError.ofJson?
    return evalFailed expression subExpression reason
  | _ => none

end FormulaError

namespace Formula

/-- The record of a formula: its text. -/
def toJson (formula : Formula) : Json := .string formula.source

/-- The formula of a record. -/
def ofJson? (record : Json) : Option Formula := do
  let source ← record.toText?
  (parse source).toOption

end Formula

end CharacterSheet
