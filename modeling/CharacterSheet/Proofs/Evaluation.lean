import CharacterSheet.Formula
import CharacterSheet.Proofs.Except

/-!
# What evaluation asks of its bindings

A tree asks its bindings for the names at its variable nodes and for nothing else, and what it does
with the numbers that it gets never ends in a complaint about a name.

* `Expr.value_congr`, `Formula.evaluate_congr` — bindings that agree on the variables give the same
  value or the same failure;
* `Expr.isFinite_of_value`, `Expr.bound_of_value` — a value is finite, and it takes a finite value
  of each variable;
* `Expr.unbound_of_value`, `Formula.ne_unbound_of_evaluate` — a name that is reported as unbound is
  that of a variable without a value, so none is reported where all variables have values.
-/

namespace CharacterSheet

variable {bindings b₁ b₂ : Bindings}

/-! ### Agreement on the variables -/

namespace Expr

mutual

theorem value_congr : (e : Expr) → (∀ name ∈ e.occurrences, b₁ name = b₂ name) →
    e.value b₁ = e.value b₂
  | number v, _ => by rw [value, value]
  | var name, h => by
    have hname : b₁ name = b₂ name := h name (by simp [occurrences])
    rw [value, value, hname]
  | unary op operand, h => by
    have hoperand := value_congr operand fun name hname =>
      h name (by simpa [occurrences] using hname)
    rw [value, value, hoperand]
  | binary op lhs rhs, h => by
    have hlhs := value_congr lhs fun name hname => h name (by simp [occurrences, hname])
    have hrhs := value_congr rhs fun name hname => h name (by simp [occurrences, hname])
    rw [value, value, hlhs, hrhs]
  | call function args, h => by
    have hargs := values_congr args fun name hname => h name (by simpa [occurrences] using hname)
    rw [value, value, hargs]

theorem values_congr : (es : List Expr) → (∀ name ∈ allOccurrences es, b₁ name = b₂ name) →
    values b₁ es = values b₂ es
  | [], _ => by rw [values, values]
  | e :: es, h => by
    have he := value_congr e fun name hname => h name (by simp [allOccurrences, hname])
    have hes := values_congr es fun name hname => h name (by simp [allOccurrences, hname])
    rw [values, values, he, hes]

end

theorem mem_variableNames {e : Expr} {name : String} :
    name ∈ e.variableNames ↔ name ∈ e.occurrences :=
  Names.mem_ofList

end Expr

/-! ### Bound variables -/

namespace Expr

theorem settle_eq_ok_iff {node : Expr} {result : Except EvalError Float} {v : Float} :
    settle node result = .ok v ↔ result = .ok v ∧ v.isFinite := by
  unfold settle
  cases result with
  | error reason => exact iff_of_false nofun nofun
  | ok w =>
    by_cases hw : w.isFinite
    · simp only [hw, if_true, Except.ok.injEq]
      exact ⟨fun h => ⟨h, h ▸ hw⟩, fun h => h.1⟩
    · simp only [hw, Except.ok.injEq]
      exact iff_of_false nofun fun h => hw (h.1 ▸ h.2)

theorem isFinite_of_value {e : Expr} {v : Float} (h : e.value bindings = .ok v) : v.isFinite := by
  cases e with
  | number | var =>
    rw [value] at h
    exact (settle_eq_ok_iff.1 h).2
  | unary op operand =>
    rw [value] at h
    obtain ⟨a, -, h⟩ := bind_eq_ok.1 h
    exact (settle_eq_ok_iff.1 h).2
  | binary op lhs rhs =>
    rw [value] at h
    obtain ⟨a, -, h⟩ := bind_eq_ok.1 h
    obtain ⟨b, -, h⟩ := bind_eq_ok.1 h
    exact (settle_eq_ok_iff.1 h).2
  | call function args =>
    rw [value] at h
    split at h
    · cases h
    · obtain ⟨vs, -, h⟩ := bind_eq_ok.1 h
      exact (settle_eq_ok_iff.1 h).2

mutual

/-- No part of a tree that has a value is left out, so each of its variables has a finite one. -/
theorem bound_of_value {v : Float} : (e : Expr) → e.value bindings = .ok v →
    ∀ name ∈ e.occurrences, ∃ x, bindings name = some x ∧ x.isFinite
  | number _, _ => by
    rw [occurrences]
    exact List.forall_mem_nil _
  | var name, h => by
    rw [value] at h
    obtain ⟨h, hfinite⟩ := settle_eq_ok_iff.1 h
    rw [occurrences, List.forall_mem_singleton]
    cases hname : bindings name with
    | none =>
      rw [hname] at h
      cases h
    | some x =>
      rw [hname] at h
      cases h
      exact ⟨v, rfl, hfinite⟩
  | unary op operand, h => by
    rw [value] at h
    obtain ⟨a, ha, -⟩ := bind_eq_ok.1 h
    rw [occurrences]
    exact bound_of_value operand ha
  | binary op lhs rhs, h => by
    rw [value] at h
    obtain ⟨a, ha, h⟩ := bind_eq_ok.1 h
    obtain ⟨b, hb, -⟩ := bind_eq_ok.1 h
    rw [occurrences, List.forall_mem_append]
    exact ⟨bound_of_value lhs ha, bound_of_value rhs hb⟩
  | call function args, h => by
    rw [value] at h
    split at h
    · cases h
    · obtain ⟨vs, hvs, -⟩ := bind_eq_ok.1 h
      rw [occurrences]
      exact bound_of_values args hvs

theorem bound_of_values {vs : List Float} : (es : List Expr) → values bindings es = .ok vs →
    ∀ name ∈ allOccurrences es, ∃ x, bindings name = some x ∧ x.isFinite
  | [], _ => by
    rw [allOccurrences]
    exact List.forall_mem_nil _
  | e :: es, h => by
    rw [values] at h
    obtain ⟨v, hv, h⟩ := bind_eq_ok.1 h
    obtain ⟨vs, hvs, -⟩ := bind_eq_ok.1 h
    rw [allOccurrences, List.forall_mem_append]
    exact ⟨bound_of_value e hv, bound_of_values es hvs⟩

end

end Expr

/-! ### Unbound variables -/

/-- A result is not the complaint that a variable is unbound. -/
def NeverUnbound {α : Type} (result : Except EvalError α) : Prop :=
  ∀ name, result ≠ .error (.unboundVariable name)

theorem neverUnbound_ok {α : Type} (a : α) : NeverUnbound (.ok a) := by
  intro name h
  cases h

theorem NeverUnbound.bind {α β : Type} {x : Except EvalError α} {f : α → Except EvalError β}
    (hx : NeverUnbound x) (hf : ∀ a, NeverUnbound (f a)) : NeverUnbound (x >>= f) := by
  intro name h
  rcases bind_eq_error.1 h with h | ⟨a, -, h⟩
  · exact hx name h
  · exact hf a name h

theorem neverUnbound_wholeOperand (operator : String) (x : Float) :
    NeverUnbound (wholeOperand operator x) := by
  intro name h
  unfold wholeOperand at h
  split at h
  · split at h <;> cases h
  · cases h

theorem UnaryOp.neverUnbound_apply (op : UnaryOp) (x : Float) : NeverUnbound (op.apply x) := by
  cases op with
  | plus => exact neverUnbound_ok x
  | minus => exact neverUnbound_ok (-x)
  | invert => exact (neverUnbound_wholeOperand _ x).bind fun n => neverUnbound_ok _

namespace BinaryOp

theorem neverUnbound_wholeOperands (op : BinaryOp) (x y : Float) :
    NeverUnbound (op.wholeOperands x y) :=
  (neverUnbound_wholeOperand _ x).bind fun _ =>
    (neverUnbound_wholeOperand _ y).bind fun _ => neverUnbound_ok _

theorem neverUnbound_onWords (op : BinaryOp) (f : BitVec 64 → BitVec 64 → BitVec 64)
    (x y : Float) : NeverUnbound (op.onWords f x y) :=
  (op.neverUnbound_wholeOperands x y).bind fun _ => neverUnbound_ok _

theorem neverUnbound_shiftOperands (op : BinaryOp) (x y : Float) :
    NeverUnbound (op.shiftOperands x y) := by
  refine (op.neverUnbound_wholeOperands x y).bind fun ⟨a, count⟩ => ?_
  intro name h
  dsimp only at h
  split at h <;> cases h

theorem neverUnbound_apply (op : BinaryOp) (x y : Float) : NeverUnbound (op.apply x y) := by
  cases op with
  | add | sub | mul => exact neverUnbound_ok _
  | div | floorDiv | mod | pow =>
    intro name h
    simp only [apply] at h
    split at h <;> cases h
  | bitOr | bitAnd | bitXor => exact neverUnbound_onWords _ _ x y
  | shiftLeft =>
    refine (neverUnbound_shiftOperands _ x y).bind fun ⟨a, count⟩ => ?_
    intro name h
    dsimp only at h
    split at h <;> cases h
  | shiftRight => exact (neverUnbound_shiftOperands _ x y).bind fun _ => neverUnbound_ok _

end BinaryOp

theorem MathFunction.neverUnbound_call (f : MathFunction) (args : List Float) :
    NeverUnbound (f.call args) := by
  intro name h
  unfold call callWith at h
  split at h
  · split at h
    · split at h <;> cases h
    · cases h
  · cases h

namespace Expr

theorem reason_of_settle {node : Expr} {result : Except EvalError Float} {failure : Failure}
    (h : settle node result = .error failure) :
    result = .error failure.reason ∨ failure.reason = .nonFinite := by
  unfold settle at h
  split at h
  · split at h
    · cases h
    · cases h
      exact .inr rfl
  · cases h
    exact .inl rfl

theorem not_unbound_of_settle {node : Expr} {result : Except EvalError Float} {failure : Failure}
    (hresult : NeverUnbound result) (h : settle node result = .error failure) (name : String) :
    failure.reason ≠ .unboundVariable name := by
  intro hreason
  rcases reason_of_settle h with hfailed | hnonFinite
  · exact hresult name (hreason ▸ hfailed)
  · rw [hreason] at hnonFinite
    cases hnonFinite

mutual

/-- A variable that is reported as unbound occurs in the tree, and it has no value. -/
theorem unbound_of_value {name : String} {failure : Failure} : (e : Expr) →
    e.value bindings = .error failure → failure.reason = .unboundVariable name →
    name ∈ e.occurrences ∧ bindings name = none
  | number v, h, hreason => by
    rw [value] at h
    exact absurd hreason (not_unbound_of_settle (neverUnbound_ok v) h name)
  | var other, h, hreason => by
    rw [value] at h
    cases hother : bindings other with
    | some v =>
      rw [hother] at h
      exact absurd hreason (not_unbound_of_settle (neverUnbound_ok v) h name)
    | none =>
      rw [hother] at h
      cases h
      cases hreason
      exact ⟨by simp [occurrences], hother⟩
  | unary op operand, h, hreason => by
    rw [value] at h
    rw [occurrences]
    rcases bind_eq_error.1 h with h | ⟨v, -, h⟩
    · exact unbound_of_value operand h hreason
    · exact absurd hreason (not_unbound_of_settle (op.neverUnbound_apply v) h name)
  | binary op lhs rhs, h, hreason => by
    rw [value] at h
    rw [occurrences, List.mem_append]
    rcases bind_eq_error.1 h with h | ⟨v, -, h⟩
    · exact (unbound_of_value lhs h hreason).imp_left .inl
    · rcases bind_eq_error.1 h with h | ⟨w, -, h⟩
      · exact (unbound_of_value rhs h hreason).imp_left .inr
      · exact absurd hreason (not_unbound_of_settle (op.neverUnbound_apply v w) h name)
  | call function args, h, hreason => by
    rw [value] at h
    rw [occurrences]
    unfold MathFunction.resolve at h
    split at h
    · next hunknown =>
      split at hunknown
      · cases hunknown
      · cases hunknown
        cases h
        cases hreason
    · rcases bind_eq_error.1 h with h | ⟨vs, -, h⟩
      · exact unbound_of_values args h hreason
      · exact absurd hreason (not_unbound_of_settle (MathFunction.neverUnbound_call _ vs) h name)

theorem unbound_of_values {name : String} {failure : Failure} : (es : List Expr) →
    values bindings es = .error failure → failure.reason = .unboundVariable name →
    name ∈ allOccurrences es ∧ bindings name = none
  | [], h, _ => by
    rw [values] at h
    cases h
  | e :: es, h, hreason => by
    rw [values] at h
    rw [allOccurrences, List.mem_append]
    rcases bind_eq_error.1 h with h | ⟨v, -, h⟩
    · exact (unbound_of_value e h hreason).imp_left .inl
    · rcases bind_eq_error.1 h with h | ⟨vs, -, h⟩
      · exact (unbound_of_values es h hreason).imp_left .inr
      · cases h

end

end Expr

namespace Formula

variable {formula : Formula}

theorem evaluate_congr (h : ∀ name ∈ formula.expr.occurrences, b₁ name = b₂ name) :
    formula.evaluate b₁ = formula.evaluate b₂ := by
  rw [evaluate, evaluate, formula.expr.value_congr h]

theorem evaluate_eq_ok {v : Float} (h : formula.evaluate bindings = .ok v) :
    formula.expr.value bindings = .ok v := by
  unfold evaluate at h
  split at h
  · next w hvalue =>
    cases h
    exact hvalue
  · cases h

theorem evaluate_eq_error {error : FormulaError} (h : formula.evaluate bindings = .error error) :
    ∃ failure, formula.expr.value bindings = .error failure ∧
      error = .evalFailed formula.source failure.node.text failure.reason := by
  unfold evaluate at h
  split at h
  · cases h
  · next failure hvalue =>
    cases h
    exact ⟨failure, hvalue, rfl⟩

/-- With a value for every variable, evaluation does not fail for want of one. -/
theorem ne_unbound_of_evaluate {source subExpression : String} {reason : EvalError}
    (hbound : ∀ name ∈ formula.expr.occurrences, bindings name ≠ none)
    (h : formula.evaluate bindings = .error (.evalFailed source subExpression reason))
    (name : String) : reason ≠ .unboundVariable name := by
  intro hreason
  obtain ⟨failure, hvalue, heq⟩ := evaluate_eq_error h
  cases heq
  obtain ⟨hmem, hnone⟩ := formula.expr.unbound_of_value hvalue hreason
  exact hbound name hmem hnone

end Formula

end CharacterSheet
