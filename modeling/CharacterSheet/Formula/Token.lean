import CharacterSheet.Decimal.Shortest
import CharacterSheet.Formula.Operator

/-!
# The tokens of formulas

* `Sign` — the signs that operators are written with, one sign for all readings of it;
* `Token`, `Token.describe` — numbers, names, signs and punctuation, and their names in messages;
* `PlacedToken` — a token with the byte at which it starts.
-/

namespace CharacterSheet

/-- A sign that stands for one or more operators. -/
inductive Sign
  | plus
  | minus
  | star
  | doubleStar
  | slash
  | doubleSlash
  | percent
  | pipe
  | ampersand
  | caret
  | tilde
  | doubleLess
  | doubleGreater
  deriving DecidableEq, Repr

namespace Sign

/-- The characters of a sign. -/
def text : Sign → String
  | plus => "+"
  | minus => "-"
  | star => "*"
  | doubleStar => "**"
  | slash => "/"
  | doubleSlash => "//"
  | percent => "%"
  | pipe => "|"
  | ampersand => "&"
  | caret => "^"
  | tilde => "~"
  | doubleLess => "<<"
  | doubleGreater => ">>"

/-- The operator of a sign before an operand. -/
def unary? : Sign → Option UnaryOp
  | plus => some .plus
  | minus => some .minus
  | tilde => some .invert
  | _ => none

/-- The operator of a sign between two operands. -/
def binary? : Sign → Option BinaryOp
  | plus => some .add
  | minus => some .sub
  | star => some .mul
  | doubleStar => some .pow
  | slash => some .div
  | doubleSlash => some .floorDiv
  | percent => some .mod
  | pipe => some .bitOr
  | ampersand => some .bitAnd
  | caret => some .bitXor
  | tilde => none
  | doubleLess => some .shiftLeft
  | doubleGreater => some .shiftRight

end Sign

/-- A token of a formula. -/
inductive Token
  | number (value : Float)
  | name (text : String)
  | sign (sign : Sign)
  | leftParen
  | rightParen
  | comma
  deriving DecidableEq, Repr

namespace Token

/-- How a message refers to a token. -/
def describe : Token → String
  | number value => "number " ++ Decimal.text value
  | name text => "name `" ++ text ++ "`"
  | sign s => "`" ++ s.text ++ "`"
  | leftParen => "`(`"
  | rightParen => "`)`"
  | comma => "`,`"

end Token

/-- A token and the byte at which it starts. -/
structure PlacedToken where
  token : Token
  position : Nat
  deriving DecidableEq, Repr

end CharacterSheet
