import CharacterSheet.Formula.Expr
import CharacterSheet.Formula.Token

/-!
# Reading syntax trees

Formulas are read by descent through the levels of precedence, from the loosest:

```text
|   ^   &   << >>   + -   * / // %   unary + - ~   **
```

The first six levels group to the left. `**` groups to the right and binds tighter than a sign on
its left, so `-2 ** 2` is `-(2 ** 2)`, while its own right operand may have a sign.

Nesting is limited: the whole formula, the inside of parentheses, an argument, the operand of a
sign and an exponent each stand one level deeper than what surrounds them. A reader of depth `n` is
built from a reader of depth `n - 1`, so the limit is what the recursion descends on, and each
reader leaves fewer tokens than it was given, so loops over a list of operands end.

* `Reader` — reads a value off the front of a list of tokens;
* `Expr.operand`, `Expr.expression` — the readers of operands and expressions of limited depth;
* `Expr.ofTokens` — the tree of a whole list of tokens.
-/

namespace CharacterSheet

/-- Why a list of tokens is no formula. -/
inductive SyntaxError
  | tooDeep
  | unexpectedToken (token : PlacedToken)
  | unexpectedEnd
  deriving DecidableEq, Repr

/-- A value read off the front of a list of tokens, and the tokens behind it, fewer than `bound`. -/
structure Parsed (α : Type) (bound : Nat) where
  value : α
  rest : List PlacedToken
  length_rest : rest.length < bound

namespace Parsed

variable {α β : Type} {m n : Nat}

/-- The same reading under a larger bound. -/
def weaken (p : Parsed α m) (h : m ≤ n) : Parsed α n :=
  ⟨p.value, p.rest, Nat.lt_of_lt_of_le p.length_rest h⟩

/-- The same tokens read as another value. -/
def map (f : α → β) (p : Parsed α m) : Parsed β m := ⟨f p.value, p.rest, p.length_rest⟩

/-- What is left behind the next token is below the bound too. -/
theorem length_lt_of_rest_eq (p : Parsed α m) {t : PlacedToken} {rest : List PlacedToken}
    (h : p.rest = t :: rest) : rest.length < m := by
  have hlt := p.length_rest
  rw [h, List.length_cons] at hlt
  exact Nat.lt_of_succ_lt hlt

end Parsed

/-- Reads a value off the front of a list of tokens, taking at least one of them. -/
abbrev Reader (α : Type) := (ts : List PlacedToken) → Except SyntaxError (Parsed α ts.length)

namespace Level

/-- The operator of a token, if it is an operator of the level. -/
def operator? (level : Level) (t : PlacedToken) : Option BinaryOp :=
  match t.token with
  | .sign s => s.binary?.filter fun op => op.level? = some level
  | _ => none

/-- Reads on from a left operand: as long as an operator of the level follows, its right operand is
read by `next`, and the operation becomes the left operand. -/
def continued (level : Level) (next : Reader Expr) (lhs : Expr) (ts : List PlacedToken) :
    Except SyntaxError (Parsed Expr (ts.length + 1)) :=
  match ts with
  | [] => .ok ⟨lhs, [], Nat.lt_succ_self _⟩
  | t :: ts =>
    match level.operator? t with
    | none => .ok ⟨lhs, t :: ts, Nat.lt_succ_self _⟩
    | some op => do
      let rhs ← next ts
      let result ← level.continued next (.binary op lhs rhs.value) rhs.rest
      return result.weaken (Nat.le_succ_of_le (Nat.le_succ_of_le rhs.length_rest))
termination_by ts.length
decreasing_by exact Nat.lt_succ_of_lt rhs.length_rest

/-- Reads operands joined by the operators of a level. -/
def reader (level : Level) (next : Reader Expr) : Reader Expr := fun ts => do
  let lhs ← next ts
  let result ← level.continued next lhs.value lhs.rest
  return result.weaken lhs.length_rest

end Level

namespace Expr

/-- Reads operands joined by the operators of all levels. -/
def operation (operand : Reader Expr) : Reader Expr := Level.all.foldr Level.reader operand

/-- Reads the arguments of a call whose opening parenthesis has been taken, up to the closing one.
A comma may follow the last argument. -/
def arguments (argument : Reader Expr) : Reader (List Expr)
  | ⟨.rightParen, _⟩ :: ts => .ok ⟨[], ts, Nat.lt_succ_self _⟩
  | ts => do
    let first ← argument ts
    match h : first.rest with
    | ⟨.comma, _⟩ :: rest =>
      have hlt := first.length_lt_of_rest_eq h
      let others ← arguments argument rest
      return (others.map (first.value :: ·)).weaken (Nat.le_of_lt hlt)
    | ⟨.rightParen, _⟩ :: rest => return ⟨[first.value], rest, first.length_lt_of_rest_eq h⟩
    | t :: _ => throw (.unexpectedToken t)
    | [] => throw .unexpectedEnd
termination_by ts => ts.length
decreasing_by exact hlt

/-- Reads a number, a name, a call or a parenthesized expression; `inner` reads the expressions
inside. -/
def primary (inner : Reader Expr) : Reader Expr
  | ⟨.number value, _⟩ :: ts => .ok ⟨number value, ts, Nat.lt_succ_self _⟩
  | ⟨.name function, _⟩ :: ⟨.leftParen, _⟩ :: ts => do
    let args ← arguments inner ts
    return (args.map (call function)).weaken (Nat.le_add_right ts.length 2)
  | ⟨.name name, _⟩ :: ts => .ok ⟨var name, ts, Nat.lt_succ_self _⟩
  | ⟨.leftParen, _⟩ :: ts => do
    let e ← inner ts
    match h : e.rest with
    | ⟨.rightParen, _⟩ :: rest =>
      return ⟨e.value, rest, Nat.lt_succ_of_lt (e.length_lt_of_rest_eq h)⟩
    | t :: _ => throw (.unexpectedToken t)
    | [] => throw .unexpectedEnd
  | t :: _ => .error (.unexpectedToken t)
  | [] => .error .unexpectedEnd

/-- Reads a primary expression and, behind `**`, its exponent. -/
def power (deeper : Reader Expr) : Reader Expr := fun ts => do
  let base ← primary (operation deeper) ts
  match h : base.rest with
  | ⟨.sign .doubleStar, _⟩ :: rest =>
    let exponent ← deeper rest
    return (exponent.map (binary .pow base.value)).weaken
      (Nat.le_of_lt (base.length_lt_of_rest_eq h))
  | _ => return base

/-- Reads an operand with the signs before it; `deeper` reads the operands one level deeper. -/
def signed (deeper : Reader Expr) : Reader Expr
  | ⟨.sign s, position⟩ :: ts =>
    match s.unary? with
    | some op => do
      let e ← deeper ts
      return (e.map (unary op)).weaken (Nat.le_succ ts.length)
    | none => power deeper (⟨.sign s, position⟩ :: ts)
  | ts => power deeper ts

/-- Reads an operand, where at most `depth` levels of nesting are left, its own among them. -/
def operand : (depth : Nat) → Reader Expr
  | 0 => fun _ => .error .tooDeep
  | depth + 1 => signed (operand depth)

/-- Reads an expression, where at most `depth` levels of nesting are left, its own among them. -/
def expression (depth : Nat) : Reader Expr := operation (operand depth)

/-- The tree of a whole list of tokens. -/
def ofTokens (maxDepth : Nat) (ts : List PlacedToken) : Except SyntaxError Expr := do
  let e ← expression maxDepth ts
  match e.rest with
  | [] => return e.value
  | t :: _ => throw (.unexpectedToken t)

end Expr

end CharacterSheet
