import CharacterSheet.Proofs.Calls
import CharacterSheet.Proofs.Evaluation
import CharacterSheet.Proofs.FormulaText

/-!
# Two ways to write a power

`x ** y` and `pow(x, y)` work out the same power, and where there is none, or none that is finite,
both fail. They name different reasons, and different nodes, but the rest of a tree does not see
reasons: it goes on with a value, or it fails. So either one may stand for the other wherever it
occurs.

* `Context`, `Context.fill` — a tree with a gap, and the tree with the gap filled;
* `Context.mem_subtrees_iff` — the parts of a tree are what its gaps can be filled with;
* `Expr.result`, `Context.result_fill_congr` — the value of a tree without the reasons of failures,
  which depends on the result of a part, and not on the part;
* `Expr.Interchangeable`, `Expr.powers_interchangeable` — powers in either form.
-/

namespace CharacterSheet

variable {bindings : Bindings}

/-! ### Trees with a gap -/

/-- A tree with a gap in the place of one of its parts. -/
inductive Context
  | gap
  | operand (op : UnaryOp) (C : Context)
  | left (op : BinaryOp) (C : Context) (rhs : Expr)
  | right (op : BinaryOp) (lhs : Expr) (C : Context)
  | argument (function : String) (before : List Expr) (C : Context) (after : List Expr)

namespace Context

/-- The tree that has a given part in the gap. -/
def fill : Context → Expr → Expr
  | gap, part => part
  | operand op C, part => .unary op (C.fill part)
  | left op C rhs, part => .binary op (C.fill part) rhs
  | right op lhs C, part => .binary op lhs (C.fill part)
  | argument function before C after, part => .call function (before ++ C.fill part :: after)

end Context

namespace Expr

variable {part : Expr}

theorem mem_allSubtrees_iff {es : List Expr} :
    part ∈ allSubtrees es ↔ ∃ e ∈ es, part ∈ e.subtrees := by
  induction es with
  | nil => simp [allSubtrees]
  | cons e es ih => simp [allSubtrees, ih]

theorem mem_subtrees_fill (C : Context) (part : Expr) : part ∈ (C.fill part).subtrees := by
  induction C with
  | gap => exact self_mem_subtrees part
  | operand op C ih => simp [Context.fill, subtrees, ih]
  | left op C rhs ih => simp [Context.fill, subtrees, ih]
  | right op lhs C ih => simp [Context.fill, subtrees, ih]
  | argument function before C after ih =>
    have hmem : part ∈ allSubtrees (before ++ C.fill part :: after) :=
      mem_allSubtrees_iff.2 ⟨C.fill part, by simp, ih⟩
    simp [Context.fill, subtrees, hmem]

mutual

theorem exists_fill_of_mem_subtrees : (e : Expr) → part ∈ e.subtrees →
    ∃ C : Context, C.fill part = e
  | number _, h | var _, h => ⟨.gap, List.mem_singleton.1 h⟩
  | unary op operand, h => by
    rcases List.mem_cons.1 h with rfl | h
    · exact ⟨.gap, rfl⟩
    · obtain ⟨C, rfl⟩ := exists_fill_of_mem_subtrees operand h
      exact ⟨.operand op C, rfl⟩
  | binary op lhs rhs, h => by
    rcases List.mem_cons.1 h with rfl | h
    · exact ⟨.gap, rfl⟩
    rcases List.mem_append.1 h with h | h
    · obtain ⟨C, rfl⟩ := exists_fill_of_mem_subtrees lhs h
      exact ⟨.left op C rhs, rfl⟩
    · obtain ⟨C, rfl⟩ := exists_fill_of_mem_subtrees rhs h
      exact ⟨.right op lhs C, rfl⟩
  | call function args, h => by
    rcases List.mem_cons.1 h with rfl | h
    · exact ⟨.gap, rfl⟩
    · obtain ⟨before, C, after, rfl⟩ := exists_fill_of_mem_allSubtrees args h
      exact ⟨.argument function before C after, rfl⟩

theorem exists_fill_of_mem_allSubtrees : (es : List Expr) → part ∈ allSubtrees es →
    ∃ before, ∃ C : Context, ∃ after, before ++ C.fill part :: after = es
  | [], h => absurd h List.not_mem_nil
  | e :: es, h => by
    rcases List.mem_append.1 h with h | h
    · obtain ⟨C, rfl⟩ := exists_fill_of_mem_subtrees e h
      exact ⟨[], C, es, rfl⟩
    · obtain ⟨before, C, after, rfl⟩ := exists_fill_of_mem_allSubtrees es h
      exact ⟨e :: before, C, after, rfl⟩

end

end Expr

/-- The parts of a tree are what fills a gap in it, at any depth. -/
theorem Context.mem_subtrees_iff {part e : Expr} :
    part ∈ e.subtrees ↔ ∃ C : Context, C.fill part = e := by
  constructor
  · exact Expr.exists_fill_of_mem_subtrees e
  · rintro ⟨C, rfl⟩
    exact Expr.mem_subtrees_fill C part

/-! ### Results -/

namespace Expr

/-- The value of a tree, or nothing where evaluation fails. -/
def result (bindings : Bindings) (e : Expr) : Option Float := (e.value bindings).toOption

/-- The values of some trees, or nothing where evaluation of one of them fails. -/
def results (bindings : Bindings) (es : List Expr) : Option (List Float) :=
  (values bindings es).toOption

theorem toOption_bind {ε α β : Type} (x : Except ε α) (f : α → Except ε β) :
    (x >>= f).toOption = x.toOption.bind fun a => (f a).toOption := by
  cases x <;> rfl

/-- What a node makes of its operands counts if it is a finite number, and the node itself does not
matter. -/
theorem toOption_settle (node : Expr) (r : Except EvalError Float) :
    (settle node r).toOption = r.toOption.filter Float.isFinite := by
  cases r with
  | error reason => rfl
  | ok v => by_cases h : v.isFinite <;> simp [settle, h, Except.toOption, Option.filter]

theorem result_unary (op : UnaryOp) (operand : Expr) :
    (unary op operand).result bindings =
      (operand.result bindings).bind fun v => (op.apply v).toOption.filter Float.isFinite := by
  simp only [result, value, toOption_bind, toOption_settle]

theorem result_binary (op : BinaryOp) (lhs rhs : Expr) :
    (binary op lhs rhs).result bindings =
      (lhs.result bindings).bind fun a => (rhs.result bindings).bind fun b =>
        (op.apply a b).toOption.filter Float.isFinite := by
  simp only [result, value, toOption_bind, toOption_settle]

theorem result_call (function : String) (args : List Expr) :
    (call function args).result bindings =
      (MathFunction.ofName? function).bind fun f => (results bindings args).bind fun vs =>
        (f.call vs).toOption.filter Float.isFinite := by
  unfold result results
  rw [value, MathFunction.resolve]
  cases MathFunction.ofName? function with
  | none => rfl
  | some f => simp only [toOption_bind, toOption_settle, Option.bind_some]

theorem results_cons (e : Expr) (es : List Expr) : results bindings (e :: es) =
    (e.result bindings).bind fun v => (results bindings es).map (v :: ·) := by
  unfold result results
  rw [values]
  cases e.value bindings with
  | error failure => rfl
  | ok v => cases values bindings es <;> rfl

theorem results_congr {e e' : Expr} (h : e.result bindings = e'.result bindings)
    (before after : List Expr) :
    results bindings (before ++ e :: after) = results bindings (before ++ e' :: after) := by
  induction before with
  | nil => rw [List.nil_append, List.nil_append, results_cons, results_cons, h]
  | cons first before ih => rw [List.cons_append, List.cons_append, results_cons, results_cons, ih]

end Expr

/-- The result of a tree depends on the result of a part, and not on the part. -/
theorem Context.result_fill_congr (C : Context) {part other : Expr}
    (h : part.result bindings = other.result bindings) :
    (C.fill part).result bindings = (C.fill other).result bindings := by
  induction C with
  | gap => exact h
  | operand op C ih => rw [fill, fill, Expr.result_unary, Expr.result_unary, ih]
  | left op C rhs ih => rw [fill, fill, Expr.result_binary, Expr.result_binary, ih]
  | right op lhs C ih => rw [fill, fill, Expr.result_binary, Expr.result_binary, ih]
  | argument function before C after ih =>
    rw [fill, fill, Expr.result_call, Expr.result_call, Expr.results_congr ih]

/-! ### Powers -/

namespace MathFunction

theorem call_pow (x y : Float) : pow.call [x, y] =
    match (realPower x y).toOption with
    | some v => if v.isFinite then .ok v else .error (.domain pow.name)
    | none => .error (.domain pow.name) := callWith_of_inDomain rfl rfl

/-- The operator and the function have the same finite powers. -/
theorem toOption_power (x y : Float) :
    (BinaryOp.pow.apply x y).toOption.filter Float.isFinite =
      (pow.call [x, y]).toOption.filter Float.isFinite := by
  rw [call_pow, BinaryOp.apply]
  cases realPower x y with
  | error reason => cases reason <;> rfl
  | ok v => by_cases h : v.isFinite <;> simp [h, Except.toOption]

end MathFunction

namespace Expr

theorem result_pow (x y : Expr) :
    (binary .pow x y).result bindings = (call "pow" [x, y]).result bindings := by
  have hname : MathFunction.ofName? "pow" = some .pow := by decide +kernel
  have hnil : results bindings [] = some [] := by rw [results, values, Except.toOption]
  rw [result_binary, result_call, hname, results_cons, results_cons, hnil]
  cases x.result bindings with
  | none => rfl
  | some a =>
    cases y.result bindings with
    | none => rfl
    | some b => exact MathFunction.toOption_power a b

/-- Two trees have the same value where either has one, and fail together. -/
structure Interchangeable (bindings : Bindings) (e e' : Expr) : Prop where
  value_iff : ∀ v, e.value bindings = .ok v ↔ e'.value bindings = .ok v
  fails_iff : (∃ failure, e.value bindings = .error failure) ↔
    ∃ failure, e'.value bindings = .error failure

theorem interchangeable_of_result_eq {e e' : Expr} (h : e.result bindings = e'.result bindings) :
    Interchangeable bindings e e' := by
  unfold result at h
  cases he : e.value bindings <;> cases he' : e'.value bindings <;>
    constructor <;> simp_all [Except.toOption]

/-- A power that is written with the operator and one that is written with the function may stand
for each other in every gap of a tree, and every place where either occurs is such a gap. -/
theorem powers_interchangeable (bindings : Bindings) (x y : Expr) :
    (∀ C : Context, Interchangeable bindings
      (C.fill (binary .pow x y)) (C.fill (call "pow" [x, y]))) ∧
    ∀ e : Expr, (binary .pow x y ∈ e.subtrees ↔ ∃ C : Context, C.fill (binary .pow x y) = e) ∧
      (call "pow" [x, y] ∈ e.subtrees ↔ ∃ C : Context, C.fill (call "pow" [x, y]) = e) := by
  refine ⟨fun C => ?_, fun e => ⟨Context.mem_subtrees_iff, Context.mem_subtrees_iff⟩⟩
  exact interchangeable_of_result_eq (C.result_fill_congr (result_pow x y))

/-- The reasons of both forms may differ. -/
example :
    (binary .pow (number 0) (number (-1))).value .none =
        .error ⟨.divisionByZero .pow, binary .pow (number 0) (number (-1))⟩ ∧
      (call "pow" [number 0, number (-1)]).value .none =
        .error ⟨.domain "pow", call "pow" [number 0, number (-1)]⟩ := by
  decide +kernel

end Expr

end CharacterSheet
