import CharacterSheet.Formula.Expr
import CharacterSheet.Formula.Token

/-!
# The grammar of formulas

What a list of tokens says, as rules: which tokens make a phrase, and which tree the phrase has. The
rules do not say how a phrase is found.

* `Phrase` — the kinds of phrases, from whole expressions to the tightest operands;
* `Phrase.Derivation`, `Phrase.Arguments` — the derivations of phrases, one constructor for a rule,
  and of the arguments of a call;
* `Derivation.tokens`, `Derivation.expr` — the tokens that are derived, and the tree they have;
* `Derivation.nesting` — how many levels of nesting lie around the most deeply nested token.
-/

namespace CharacterSheet

/-- A kind of phrase. -/
inductive Phrase
  /-- Operands joined by operators of some levels, from the loosest. -/
  | operation (levels : List Level)
  /-- An operand with the signs before it. -/
  | signed
  /-- A primary expression, perhaps with an exponent. -/
  | power
  /-- A number, a name, a call or an expression in parentheses. -/
  | primary
  deriving DecidableEq, Repr

namespace Phrase

mutual

/-- A derivation of a phrase: the rule that makes it, with derivations of its parts. -/
inductive Derivation : Phrase → Type
  | operand (d : Derivation signed) : Derivation (operation [])
  | tighter {l : Level} {ls : List Level} (d : Derivation (operation ls)) :
    Derivation (operation (l :: ls))
  /-- Operators of one level group to the left. -/
  | binary {l : Level} {ls : List Level} (lhs : Derivation (operation (l :: ls))) (s : Sign)
    (op : BinaryOp) (hs : s.binary? = some op) (hl : op.level? = some l)
    (rhs : Derivation (operation ls)) : Derivation (operation (l :: ls))
  | unary (s : Sign) (op : UnaryOp) (hs : s.unary? = some op) (d : Derivation signed) :
    Derivation signed
  | unsigned (d : Derivation power) : Derivation signed
  | base (d : Derivation primary) : Derivation power
  /-- `**` groups to the right, and its exponent may have signs. -/
  | exponent (base : Derivation primary) (exponent : Derivation signed) : Derivation power
  | number (value : Float) : Derivation primary
  | var (name : String) : Derivation primary
  | call (name : String) (args : Arguments) : Derivation primary
  | paren (d : Derivation (operation Level.all)) : Derivation primary

/-- A derivation of the arguments of a call. A comma may follow the last one. -/
inductive Arguments : Type
  | none
  | last (d : Derivation (operation Level.all))
  | more (d : Derivation (operation Level.all)) (rest : Arguments)

end

/-- The phrase of a whole expression. -/
abbrev expression : Phrase := operation Level.all

mutual

/-- The tokens of a phrase. -/
def Derivation.tokens : {p : Phrase} → Derivation p → List Token
  | _, .operand d => d.tokens
  | _, .tighter d => d.tokens
  | _, .binary lhs s _ _ _ rhs => lhs.tokens ++ .sign s :: rhs.tokens
  | _, .unary s _ _ d => .sign s :: d.tokens
  | _, .unsigned d => d.tokens
  | _, .base d => d.tokens
  | _, .exponent base exponent => base.tokens ++ .sign .doubleStar :: exponent.tokens
  | _, .number value => [.number value]
  | _, .var name => [.name name]
  | _, .call name args => .name name :: .leftParen :: args.tokens ++ [.rightParen]
  | _, .paren d => .leftParen :: d.tokens ++ [.rightParen]

/-- The tokens between the parentheses of a call. -/
def Arguments.tokens : Arguments → List Token
  | .none => []
  | .last d => d.tokens
  | .more d rest => d.tokens ++ .comma :: rest.tokens

end

mutual

/-- The tree of a phrase. -/
def Derivation.expr : {p : Phrase} → Derivation p → Expr
  | _, .operand d => d.expr
  | _, .tighter d => d.expr
  | _, .binary lhs _ op _ _ rhs => .binary op lhs.expr rhs.expr
  | _, .unary _ op _ d => .unary op d.expr
  | _, .unsigned d => d.expr
  | _, .base d => d.expr
  | _, .exponent base exponent => .binary .pow base.expr exponent.expr
  | _, .number value => .number value
  | _, .var name => .var name
  | _, .call name args => .call name args.exprs
  | _, .paren d => d.expr

/-- The trees of the arguments of a call. -/
def Arguments.exprs : Arguments → List Expr
  | .none => []
  | .last d => [d.expr]
  | .more d rest => d.expr :: rest.exprs

end

mutual

/-- The greatest number of levels around a token of a phrase: the level of the phrase itself, and
one more for each pair of parentheses, argument, sign and exponent that the token stands in. -/
def Derivation.nesting : {p : Phrase} → Derivation p → Nat
  | _, .operand d => d.nesting
  | _, .tighter d => d.nesting
  | _, .binary lhs _ _ _ _ rhs => max lhs.nesting rhs.nesting
  | _, .unary _ _ _ d => 1 + d.nesting
  | _, .unsigned d => d.nesting
  | _, .base d => d.nesting
  | _, .exponent base exponent => max base.nesting (1 + exponent.nesting)
  | _, .number _ => 1
  | _, .var _ => 1
  | _, .call _ args => 1 + args.nesting
  | _, .paren d => 1 + d.nesting

/-- The greatest number of levels in the arguments of a call. -/
def Arguments.nesting : Arguments → Nat
  | .none => 0
  | .last d => d.nesting
  | .more d rest => max d.nesting rest.nesting

end

end Phrase

end CharacterSheet
