import CharacterSheet.Formula.Expr.Printer
import CharacterSheet.Formula.Expr.Reader
import CharacterSheet.Formula.Expr.Value
import CharacterSheet.Formula.Limits
import CharacterSheet.Formula.Token.Scan

/-!
# Formulas

A formula is text from a content file, and not trusted: it may do arithmetic on numbers that the
caller supplies, and nothing else. Whatever is not arithmetic is turned away when the text is read.

* `Formula` — a text that has been read, with its tree and the variables it needs;
* `Formula.parse` — reads a text under limits;
* `Formula.evaluate` — the value of a formula for given values of its variables.
-/

namespace CharacterSheet

/-- A formula: its text, its tree, and the variables of the tree in order. -/
structure Formula where
  source : String
  expr : Expr
  variableNames : List String
  deriving DecidableEq, Repr

namespace Formula

/-- The byte at which a character first occurs. -/
def bytePosition? (c : Char) (cs : List Char) : Option Nat :=
  if c ∈ cs then some (byteLength (cs.takeWhile (· != c))) else none

/-- What is wrong with a text before its tokens are looked at: it has more than one line, a comment
marker, or more bytes than allowed. -/
def screen (source : String) (limits : ParseLimits) : Except ParseError Unit :=
  let cs := source.toList
  if cs.any fun c => c == '\n' || c == '\r' then .error .multiline
  else match bytePosition? '#' cs with
    | some position => .error (.comment position)
    | none =>
      if limits.maxLength < byteLength cs then .error (.tooLong (byteLength cs) limits.maxLength)
      else .ok ()

/-- How a list of tokens that is no formula is reported. -/
def syntaxRejection (limits : ParseLimits) : SyntaxError → ParseError
  | .tooDeep => .tooDeep limits.maxDepth
  | .unexpectedToken t => .unexpectedToken t.token.describe t.position
  | .unexpectedEnd => .unexpectedEnd

/-- The tree of a text. -/
def readExpr (source : String) (limits : ParseLimits) : Except ParseError Expr := do
  screen source limits
  let tokens ← tokenize source
  (Expr.ofTokens limits.maxDepth tokens).mapError (syntaxRejection limits)

/-- Reads a text as a formula. -/
def parse (source : String) (limits : ParseLimits := {}) : Except FormulaError Formula :=
  match readExpr source limits with
  | .ok expr => .ok ⟨source, expr, expr.variableNames⟩
  | .error reason => .error (.parseRejected source reason)

theorem parse_eq_ok_iff {source : String} {limits : ParseLimits} {f : Formula} :
    parse source limits = .ok f ↔
      ∃ e, readExpr source limits = .ok e ∧ f = ⟨source, e, e.variableNames⟩ := by
  unfold parse
  cases readExpr source limits <;> simp [eq_comm]

/-- The value of a formula. A failure is reported with the part of the formula that failed. -/
def evaluate (formula : Formula) (bindings : Bindings) : Except FormulaError Float :=
  match formula.expr.value bindings with
  | .ok value => .ok value
  | .error failure => .error (.evalFailed formula.source failure.node.text failure.reason)

end Formula

end CharacterSheet
