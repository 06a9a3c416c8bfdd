import CharacterSheet.Formula.Expr.Printer
import CharacterSheet.Proofs.Scanning

/-!
# The tokens of a printed tree

A printed tree is scanned as the tokens that the printer meant. For this its numbers and names have
to be such as can be written: the tree of a formula has no others, since they come from its text.

* `Expr.leaves`, `Expr.IsReadable` — the numbers and names of a tree, and that they can be written;
* `Expr.textTokens` — the tokens that a tree is printed with;
* `Expr.scans_text` — the text of a tree has these tokens.
-/

namespace CharacterSheet

/-- The text of a number that can be written is a numeral with its value. -/
theorem exists_text_of_isReadable {value : Float} (h : (Token.number value).IsReadable) :
    ∃ c r, (Decimal.text value).toList = c :: r ∧ c.isDigit ∧ (∀ x ∈ r, isDigitOrPoint x) ∧
      numeralValue? (c :: r) = some value := by
  obtain ⟨text, hvalue⟩ := h
  obtain ⟨d, -, hd⟩ := Option.bind_eq_some_iff.1 hvalue
  dsimp only at hd
  split at hd
  · next hfinite =>
    obtain rfl := Option.some.inj hd
    obtain ⟨c, r, d', htext, hc, hr, hread, hfloat⟩ := Decimal.exists_read?_text hfinite
    refine ⟨c, r, htext, hc, fun x hx => ?_, ?_⟩
    · simpa [isDigitOrPoint] using hr x hx
    · rw [numeralValue?, hread, Option.bind_some, hfloat]
      exact if_pos hfinite
  · cases hd

namespace Expr

mutual

/-- The numbers and the names of a tree, from left to right. -/
def leaves : Expr → List Token
  | number value => [.number value]
  | var name => [.name name]
  | unary _ operand => leaves operand
  | binary _ lhs rhs => leaves lhs ++ leaves rhs
  | call function args => .name function :: allLeaves args

/-- The numbers and the names of some trees, from left to right. -/
def allLeaves : List Expr → List Token
  | [] => []
  | e :: es => leaves e ++ allLeaves es

end

/-- The numbers and the names of a tree can be written. -/
def IsReadable (e : Expr) : Prop := ∀ k ∈ e.leaves, k.IsReadable

/-- The tokens of an operand, which is printed with the given tokens. -/
def grouped (e : Expr) (ks : List Token) : List Token :=
  if e.isBinary then .leftParen :: ks ++ [.rightParen] else ks

mutual

/-- The tokens that a tree is printed with. -/
def textTokens : Expr → List Token
  | number value => [.number value]
  | var name => [.name name]
  | unary op operand => .sign op.sign :: grouped operand (textTokens operand)
  | binary op lhs rhs =>
    grouped lhs (textTokens lhs) ++ .sign op.sign :: grouped rhs (textTokens rhs)
  | call function args => .name function :: .leftParen :: argumentsTokens args ++ [.rightParen]

/-- The tokens that some trees are printed with as an argument list. -/
def argumentsTokens : List Expr → List Token
  | [] => []
  | [e] => textTokens e
  | e :: es => textTokens e ++ .comma :: argumentsTokens es

end

/-- A text can be written as the tokens `printed` in front of other tokens. -/
def Writes (text : String) (printed : List Token) : Prop :=
  ∀ ⦃cs : List Char⦄ ⦃ks : List Token⦄, Ends cs → Scans cs ks →
    Scans (text.toList ++ cs) (printed ++ ks)

theorem Writes.operandText {e : Expr} (h : Writes e.text e.textTokens) :
    Writes e.operandText (grouped e e.textTokens) := by
  intro cs ks hcs hks
  rw [operandText_eq, grouped]
  split
  · have hinner := h (ends_cons (by decide) (by decide)) hks.rightParen
    simpa [parenthesized] using hinner.leftParen
  · exact h hcs hks

mutual

/-- The text of a tree has the tokens that it is printed with. -/
theorem writes_text : (e : Expr) → e.IsReadable → Writes e.text e.textTokens
  | number value, he => by
    intro cs ks hcs hks
    obtain ⟨c, r, htext, hc, hr, hvalue⟩ := exists_text_of_isReadable (he _ List.mem_cons_self)
    rw [text, htext]
    exact hks.numeral hc hr hvalue hcs
  | var name, he => fun _ _ hcs hks => hks.name (he _ List.mem_cons_self) hcs
  | unary op operand, he => by
    intro cs ks hcs hks
    have hoperand := (writes_text operand he).operandText hcs hks
    simpa [text, textTokens] using hoperand.unary op
  | binary op lhs rhs, he => by
    intro cs ks hcs hks
    obtain ⟨hl, hr⟩ := List.forall_mem_append.1 he
    -- what follows an operand is scanned before it, so the right operand comes first
    have hrhs := (writes_text rhs hr).operandText hcs hks
    have hspace : Ends (' ' :: (op.symbol.toList ++ ' ' :: (rhs.operandText.toList ++ cs))) :=
      ends_cons (by decide) (by decide)
    have hlhs := (writes_text lhs hl).operandText hspace (hrhs.binary op)
    simpa [text, textTokens] using hlhs
  | call function args, he => by
    intro cs ks hcs hks
    obtain ⟨hf, hargs⟩ := List.forall_mem_cons.1 he
    have hclose : Ends (')' :: cs) := ends_cons (by decide) (by decide)
    have hinner := writes_argumentsText args hargs hclose hks.rightParen
    have hcall := hinner.leftParen.name hf (ends_cons (by decide) (by decide))
    simpa [text, textTokens] using hcall

theorem writes_argumentsText : (es : List Expr) → (∀ k ∈ allLeaves es, k.IsReadable) →
    Writes (argumentsText es) (argumentsTokens es)
  | [], _ => fun _ _ _ hks => hks
  | [e], hes => writes_text e (List.forall_mem_append.1 hes).1
  | e :: e' :: es, hes => by
    intro cs ks hcs hks
    obtain ⟨he, hes⟩ := List.forall_mem_append.1 hes
    have hrest := writes_argumentsText (e' :: es) hes hcs hks
    have hfirst := writes_text e he (ends_cons (by decide) (by decide)) hrest.space.comma
    simpa [argumentsText, argumentsTokens] using hfirst

end

theorem scans_text {e : Expr} (he : e.IsReadable) : Scans e.text.toList e.textTokens := by
  simpa using writes_text e he ends_nil .nil

end Expr

end CharacterSheet
