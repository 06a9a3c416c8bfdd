/-!
# The operators of formulas

* `UnaryOp`, `BinaryOp` — the operators, each with the symbol it is written with;
* `BinaryOp.isBitwise` — the operators that take whole numbers only;
* `Level`, `Level.all` — the levels of precedence of the operators that group to the left, from the
  loosest to the tightest. `**` is on none of them: it binds tighter still, and groups to the right.
-/

namespace CharacterSheet

/-- The operators written before their operand. -/
inductive UnaryOp
  | plus
  | minus
  | invert
  deriving DecidableEq, Repr

/-- The operators written between their operands. -/
inductive BinaryOp
  | add
  | sub
  | mul
  | div
  | floorDiv
  | mod
  | pow
  | bitOr
  | bitAnd
  | bitXor
  | shiftLeft
  | shiftRight
  deriving DecidableEq, Repr

/-- How a unary operator is written. -/
def UnaryOp.symbol : UnaryOp → String
  | .plus => "+"
  | .minus => "-"
  | .invert => "~"

/-- How a binary operator is written. -/
def BinaryOp.symbol : BinaryOp → String
  | .add => "+"
  | .sub => "-"
  | .mul => "*"
  | .div => "/"
  | .floorDiv => "//"
  | .mod => "%"
  | .pow => "**"
  | .bitOr => "|"
  | .bitAnd => "&"
  | .bitXor => "^"
  | .shiftLeft => "<<"
  | .shiftRight => ">>"

/-- Whether an operator takes whole numbers only. -/
def BinaryOp.isBitwise : BinaryOp → Bool
  | .bitOr | .bitAnd | .bitXor | .shiftLeft | .shiftRight => true
  | _ => false

/-- The levels of precedence of the operators that group to the left. -/
inductive Level
  | bitOr
  | bitXor
  | bitAnd
  | shift
  | sum
  | product
  deriving DecidableEq, Repr

/-- The levels, from the loosest to the tightest. -/
def Level.all : List Level := [.bitOr, .bitXor, .bitAnd, .shift, .sum, .product]

/-- The level on which an operator stands. `**` stands on none. -/
def BinaryOp.level? : BinaryOp → Option Level
  | .bitOr => some .bitOr
  | .bitXor => some .bitXor
  | .bitAnd => some .bitAnd
  | .shiftLeft | .shiftRight => some .shift
  | .add | .sub => some .sum
  | .mul | .div | .floorDiv | .mod => some .product
  | .pow => none

end CharacterSheet
