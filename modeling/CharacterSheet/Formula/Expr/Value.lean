import CharacterSheet.Formula.Expr
import CharacterSheet.Formula.MathFunction

/-!
# The value of a formula

A tree is evaluated from left to right, operands before operators, against nothing but the values
bound to its variables, and every intermediate result has to be a finite number.

* `Bindings` — the values of variables;
* `UnaryOp.apply`, `BinaryOp.apply` — the operators on doubles; the bitwise ones work on 64-bit
  words, and take whole numbers up to `2 ^ 53` in magnitude;
* `Expr.value` — the value of a tree, or an error and the node of the tree that it happened at.
-/

namespace CharacterSheet

open Binary64

/-- The values of variables. A name without a value is unbound. -/
abbrev Bindings := String → Option Float

namespace Bindings

/-- No variable has a value. -/
def none : Bindings := fun _ => Option.none

/-- The bindings of a list, in which the first entry of a name counts. -/
def ofList (pairs : List (String × Float)) : Bindings := fun name => pairs.lookup name

/-- The bindings of a list, in which the last entry of a name counts. -/
def ofListLast (pairs : List (String × Float)) : Bindings := ofList pairs.reverse

end Bindings

/-- The largest magnitude of an operand of a bitwise operator: from here on, doubles skip whole
numbers. -/
def maxWholeOperand : Nat := Nat.pow 2 53

/-- An operand of a bitwise operator as an integer. -/
def wholeOperand (operator : String) (x : Float) : Except EvalError Int :=
  match toInt? x with
  | some n =>
    if n.natAbs ≤ maxWholeOperand then .ok n else .error (.nonIntegral operator)
  | none => .error (.nonIntegral operator)

/-- The value of a unary operator. -/
def UnaryOp.apply (op : UnaryOp) (x : Float) : Except EvalError Float :=
  match op with
  | plus => .ok x
  | minus => .ok (-x)
  | invert => do
    let n ← wholeOperand op.symbol x
    return ofInt (-n - 1)

namespace BinaryOp

/-- Both operands of a bitwise operator as integers, the left one first. -/
def wholeOperands (op : BinaryOp) (x y : Float) : Except EvalError (Int × Int) := do
  let a ← wholeOperand op.symbol x
  let b ← wholeOperand op.symbol y
  return (a, b)

/-- A bitwise operation on 64-bit words in two's complement, as a double. -/
def onWords (op : BinaryOp) (f : BitVec 64 → BitVec 64 → BitVec 64) (x y : Float) :
    Except EvalError Float := do
  let (a, b) ← wholeOperands op x y
  return ofInt (f (BitVec.ofInt 64 a) (BitVec.ofInt 64 b)).toInt

/-- The operands of a shift. The count has to fit into 32 bits without a sign. -/
def shiftOperands (op : BinaryOp) (x y : Float) : Except EvalError (Int × Nat) := do
  let (a, count) ← wholeOperands op x y
  if 0 ≤ count ∧ count < UInt32.size then return (a, count.toNat) else throw (.invalidShift op)

/-- A word shifted to the left by less than its width, where shifting it back restores it. -/
def shiftLeftWord? (word : BitVec 64) (count : Nat) : Option (BitVec 64) :=
  if count < 64 then
    let shifted := word <<< count
    if shifted.sshiftRight count = word then some shifted else none
  else none

/-- A word shifted to the right under copies of its sign. By the width or more, only the sign is
left. -/
def shiftRightWord (word : BitVec 64) (count : Nat) : BitVec 64 :=
  if count < 64 then word.sshiftRight count else if word.toInt < 0 then -1 else 0

/-- The value of a binary operator, which is not always finite. -/
def apply (op : BinaryOp) (x y : Float) : Except EvalError Float :=
  match op with
  | add => .ok (x + y)
  | sub => .ok (x - y)
  | mul => .ok (x * y)
  | div => if y == 0 then .error (.divisionByZero op) else .ok (x / y)
  | floorDiv => if y == 0 then .error (.divisionByZero op) else .ok (floor (x / y))
  | mod => if y == 0 then .error (.divisionByZero op) else .ok (floorMod x y)
  | pow =>
    match realPower x y with
    | .ok value => .ok value
    | .error .zeroToNegative => .error (.divisionByZero op)
    | .error .complex => .error (.domain op.symbol)
  | bitOr => onWords op (· ||| ·) x y
  | bitAnd => onWords op (· &&& ·) x y
  | bitXor => onWords op (· ^^^ ·) x y
  | shiftLeft => do
    let (a, count) ← shiftOperands op x y
    match shiftLeftWord? (BitVec.ofInt 64 a) count with
    | some shifted => return ofInt shifted.toInt
    | none => throw (.invalidShift op)
  | shiftRight => do
    let (a, count) ← shiftOperands op x y
    return ofInt (shiftRightWord (BitVec.ofInt 64 a) count).toInt

end BinaryOp

namespace Expr

/-- An evaluation error, and the node at which it happened. -/
structure Failure where
  reason : EvalError
  node : Expr
  deriving DecidableEq, Repr

/-- The result of a node's own computation: its errors happened at the node, and so did a result
that is not finite. -/
def settle (node : Expr) (result : Except EvalError Float) : Except Failure Float :=
  match result with
  | .ok value => if value.isFinite then .ok value else .error ⟨.nonFinite, node⟩
  | .error reason => .error ⟨reason, node⟩

mutual

/-- The value of a tree. The name of a call is looked up before its arguments are evaluated. -/
def value (bindings : Bindings) : Expr → Except Failure Float
  | number v => settle (number v) (.ok v)
  | var name =>
    settle (var name) <| match bindings name with
      | some v => .ok v
      | none => .error (.unboundVariable name)
  | unary op operand => do
    let v ← value bindings operand
    settle (unary op operand) (op.apply v)
  | binary op lhs rhs => do
    let a ← value bindings lhs
    let b ← value bindings rhs
    settle (binary op lhs rhs) (op.apply a b)
  | call function args =>
    match MathFunction.resolve function with
    | .error reason => .error ⟨reason, call function args⟩
    | .ok f => do
      let vs ← values bindings args
      settle (call function args) (f.call vs)

/-- The values of some trees, from left to right. -/
def values (bindings : Bindings) : List Expr → Except Failure (List Float)
  | [] => .ok []
  | e :: es => do
    let v ← value bindings e
    let vs ← values bindings es
    return v :: vs

end

end Expr

end CharacterSheet
