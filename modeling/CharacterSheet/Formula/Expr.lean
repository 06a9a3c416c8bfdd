import CharacterSheet.Formula.Operator
import CharacterSheet.Names

/-!
# The syntax trees of formulas

* `Expr` — numbers, variables, unary and binary operations, and calls by name;
* `Expr.depth`, `Expr.size` — the height of a tree and the number of its nodes;
* `Expr.variableNames`, `Expr.calledNames` — the names that a tree mentions: in order and each once
  for the variables, which the names of functions are not.
-/

namespace CharacterSheet

/-- A formula as a tree. -/
inductive Expr
  | number (value : Float)
  | var (name : String)
  | unary (op : UnaryOp) (operand : Expr)
  | binary (op : BinaryOp) (lhs rhs : Expr)
  | call (function : String) (args : List Expr)
  deriving Repr

namespace Expr

mutual

/-- The height of a tree. A leaf has height one, and so has a call without arguments. -/
def depth : Expr → Nat
  | number _ => 1
  | var _ => 1
  | unary _ operand => 1 + operand.depth
  | binary _ lhs rhs => 1 + max lhs.depth rhs.depth
  | call _ args => 1 + maxDepth args

/-- The height of the highest of some trees. -/
def maxDepth : List Expr → Nat
  | [] => 0
  | e :: es => max e.depth (maxDepth es)

end

mutual

/-- The number of nodes of a tree. -/
def size : Expr → Nat
  | number _ => 1
  | var _ => 1
  | unary _ operand => 1 + operand.size
  | binary _ lhs rhs => 1 + (lhs.size + rhs.size)
  | call _ args => 1 + totalSize args

/-- The number of nodes of some trees. -/
def totalSize : List Expr → Nat
  | [] => 0
  | e :: es => e.size + totalSize es

end

mutual

/-- The names at the variable nodes of a tree, from left to right. -/
def occurrences : Expr → List String
  | number _ => []
  | var name => [name]
  | unary _ operand => operand.occurrences
  | binary _ lhs rhs => lhs.occurrences ++ rhs.occurrences
  | call _ args => allOccurrences args

/-- The names at the variable nodes of some trees, from left to right. -/
def allOccurrences : List Expr → List String
  | [] => []
  | e :: es => e.occurrences ++ allOccurrences es

end

/-- The variables of a tree, each once and in the order of their bytes. -/
def variableNames (e : Expr) : List String := Names.ofList e.occurrences

mutual

/-- The names that a tree calls, from left to right. -/
def calledNames : Expr → List String
  | number _ => []
  | var _ => []
  | unary _ operand => operand.calledNames
  | binary _ lhs rhs => lhs.calledNames ++ rhs.calledNames
  | call function args => function :: allCalledNames args

/-- The names that some trees call, from left to right. -/
def allCalledNames : List Expr → List String
  | [] => []
  | e :: es => e.calledNames ++ allCalledNames es

end

mutual

/-- Decides whether two trees are the same. -/
def decEq : (a b : Expr) → Decidable (a = b)
  | number x, number y =>
    if h : x = y then isTrue (by rw [h]) else isFalse (by simpa using h)
  | var x, var y =>
    if h : x = y then isTrue (by rw [h]) else isFalse (by simpa using h)
  | unary o a, unary p b =>
    if h : o = p then
      match decEq a b with
      | isTrue h' => isTrue (by rw [h, h'])
      | isFalse h' => isFalse (by simp [h'])
    else isFalse (by simp [h])
  | binary o a c, binary p b d =>
    if h : o = p then
      match decEq a b, decEq c d with
      | isTrue h₁, isTrue h₂ => isTrue (by rw [h, h₁, h₂])
      | isFalse h₁, _ => isFalse (by simp [h₁])
      | _, isFalse h₂ => isFalse (by simp [h₂])
    else isFalse (by simp [h])
  | call f as, call g bs =>
    if h : f = g then
      match decEqList as bs with
      | isTrue h' => isTrue (by rw [h, h'])
      | isFalse h' => isFalse (by simp [h'])
    else isFalse (by simp [h])
  | number _, var _ | number _, unary .. | number _, binary .. | number _, call .. => isFalse nofun
  | var _, number _ | var _, unary .. | var _, binary .. | var _, call .. =>
    isFalse nofun
  | unary .., number _ | unary .., var _ | unary .., binary .. | unary .., call .. => isFalse nofun
  | binary .., number _ | binary .., var _ | binary .., unary .. | binary .., call .. =>
    isFalse nofun
  | call .., number _ | call .., var _ | call .., unary .. | call .., binary .. => isFalse nofun

/-- Decides whether two lists of trees are the same. -/
def decEqList : (as bs : List Expr) → Decidable (as = bs)
  | [], [] => isTrue rfl
  | [], _ :: _ => isFalse nofun
  | _ :: _, [] => isFalse nofun
  | a :: as, b :: bs =>
    match decEq a b, decEqList as bs with
    | isTrue h₁, isTrue h₂ => isTrue (by rw [h₁, h₂])
    | isFalse h₁, _ => isFalse (by simp [h₁])
    | _, isFalse h₂ => isFalse (by simp [h₂])

end

instance : DecidableEq Expr := decEq

end Expr

end CharacterSheet
