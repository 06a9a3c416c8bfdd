import CharacterSheet.Decimal.Shortest
import CharacterSheet.Formula.Expr

/-!
# Writing syntax trees

* `Expr.text` — a tree as a formula: every binary operation inside another operation stands in
  parentheses, so the text shows the grouping and reads back as the same tree;
* `Expr.prefixText` — a tree with its operators in front, as in `(+ 1 (call f x (u- y)))`.
-/

namespace CharacterSheet

namespace Expr

/-- Whether a tree is a binary operation. -/
def isBinary : Expr → Bool
  | binary .. => true
  | _ => false

/-- Text in parentheses. -/
def parenthesized (text : String) : String := "(" ++ text ++ ")"

mutual

/-- A tree as the text of a formula. -/
def text : Expr → String
  | number value => Decimal.text value
  | var name => name
  | unary op operand => op.symbol ++ operandText operand
  | binary op lhs rhs => operandText lhs ++ " " ++ op.symbol ++ " " ++ operandText rhs
  | call function args => function ++ "(" ++ argumentsText args ++ ")"

/-- A tree as the text of an operand. -/
def operandText : Expr → String
  | number value => Decimal.text value
  | var name => name
  | unary op operand => op.symbol ++ operandText operand
  | binary op lhs rhs =>
    "(" ++ (operandText lhs ++ " " ++ op.symbol ++ " " ++ operandText rhs) ++ ")"
  | call function args => function ++ "(" ++ argumentsText args ++ ")"

/-- Some trees as the text of an argument list. -/
def argumentsText : List Expr → String
  | [] => ""
  | [e] => text e
  | e :: es => text e ++ ", " ++ argumentsText es

end

theorem operandText_eq (e : Expr) :
    e.operandText = if e.isBinary then parenthesized e.text else e.text := by
  cases e <;> simp [operandText, text, isBinary, parenthesized]

mutual

/-- A tree with its operators in front. -/
def prefixText : Expr → String
  | number value => Decimal.text value
  | var name => name
  | unary op operand => "(u" ++ op.symbol ++ " " ++ prefixText operand ++ ")"
  | binary op lhs rhs => "(" ++ op.symbol ++ " " ++ prefixText lhs ++ " " ++ prefixText rhs ++ ")"
  | call function args => "(call " ++ function ++ prefixTexts args ++ ")"

/-- Some trees with their operators in front, each after a space. -/
def prefixTexts : List Expr → String
  | [] => ""
  | e :: es => " " ++ prefixText e ++ prefixTexts es

end

end Expr

end CharacterSheet
