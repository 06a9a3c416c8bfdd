import CharacterSheet.Proofs.Evaluation
import CharacterSheet.Proofs.FormulaText

/-!
# The node that evaluation fails at

Evaluation goes through a tree from left to right, operands before operators, and stops at the first
thing that goes wrong. It names the node where that is, and not one above it. Only calls are out of
order: the name of a call is looked up before the arguments, so that a call of an unknown function
fails though its arguments may have no values either.

* `Visit`, `Expr.visits` — what evaluation does at the nodes of a tree, in its order;
* `FirstBreak`, `FirstBreak.unique` — the first of some visits that does not go well;
* `Expr.FailsAt` — what it means that evaluation fails at a node;
* `Expr.value_eq_error_iff_failsAt` — evaluation fails with a reason at a node exactly if it does;
* `Formula.namesFailure_of_parse` — what is reported of a formula that has no value.
-/

namespace CharacterSheet

variable {bindings : Bindings}

theorem MathFunction.resolve_eq_error_iff {function : String} {reason : EvalError} :
    resolve function = .error reason ↔
      (∀ f : MathFunction, f.name ≠ function) ∧ reason = .unknownFunction function := by
  unfold resolve
  cases h : ofName? function with
  | none =>
    have hnames := List.find?_eq_none.1 h
    simp only [beq_iff_eq] at hnames
    constructor
    · rintro ⟨⟩
      exact ⟨fun f => hnames f (mem_all f), rfl⟩
    · rintro ⟨-, rfl⟩
      rfl
  | some f =>
    have hname : f.name = function := by simpa using List.find?_some h
    exact iff_of_false nofun fun hnames => hnames.1 f hname

theorem MathFunction.exists_name_of_resolve {function : String} {f : MathFunction}
    (h : resolve function = .ok f) : ∃ g : MathFunction, g.name = function := by
  unfold resolve at h
  split at h
  · next g hg => exact ⟨g, by simpa using List.find?_some hg⟩
  · cases h

namespace Expr

/-! ### The order of evaluation -/

/-- The operands of a node, from left to right. -/
def operands : Expr → List Expr
  | number _ | var _ => []
  | unary _ operand => [operand]
  | binary _ lhs rhs => [lhs, rhs]
  | call _ args => args

/-- What evaluation does at a node. -/
inductive Visit
  /-- The name of a call is looked up. -/
  | lookUp (function : String) (args : List Expr)
  /-- A node is completed: its value is computed from those of its operands. -/
  | complete (node : Expr)

mutual

/-- The visits to the nodes of a tree in their order. -/
def visits : Expr → List Visit
  | number value => [.complete (number value)]
  | var name => [.complete (var name)]
  | unary op operand => visits operand ++ [.complete (unary op operand)]
  | binary op lhs rhs => visits lhs ++ (visits rhs ++ [.complete (binary op lhs rhs)])
  | call function args =>
    .lookUp function args :: (allVisits args ++ [.complete (call function args)])

/-- The visits to the nodes of some trees, one tree after the other. -/
def allVisits : List Expr → List Visit
  | [] => []
  | e :: es => visits e ++ allVisits es

end

/-- A tree has a value, which is a finite number. -/
def HasValue (bindings : Bindings) (e : Expr) : Prop :=
  ∃ v, e.value bindings = .ok v ∧ v.isFinite

/-- A visit goes well: the called function exists, or the completed node has a value. -/
def Visit.Passes (bindings : Bindings) : Visit → Prop
  | lookUp function _ => ∃ f : MathFunction, f.name = function
  | complete node => node.HasValue bindings

/-- A visit is where evaluation fails: the called function is unknown, or the completed node has no
value though its operands have. -/
def Visit.Breaks (bindings : Bindings) (failure : Failure) : Visit → Prop
  | lookUp function args =>
    (∀ f : MathFunction, f.name ≠ function) ∧
      failure = ⟨.unknownFunction function, call function args⟩
  | complete node => (∀ e ∈ node.operands, e.HasValue bindings) ∧ failure.node = node

/-- The first of some visits that does not go well is where evaluation fails, and evaluation of its
node alone fails there too. -/
def FirstBreak (bindings : Bindings) (vs : List Visit) (failure : Failure) : Prop :=
  failure.node.value bindings = .error failure ∧
    ∃ before visit after, vs = before ++ visit :: after ∧
      (∀ v ∈ before, v.Passes bindings) ∧ visit.Breaks bindings failure

/-- Evaluation of a tree fails with a reason at a node. -/
structure FailsAt (bindings : Bindings) (e : Expr) (failure : Failure) : Prop where
  mem_subtrees : failure.node ∈ e.subtrees
  /-- The node fails by itself, and for the same reason. -/
  value_node : failure.node.value bindings = .error failure
  /-- All that is visited before goes well, so that all nodes that are completed before the node
  have values. Of the node, either the operands have values, or its name is found unknown before
  any of them is looked at. -/
  first : ∃ before visit after, e.visits = before ++ visit :: after ∧
    (∀ v ∈ before, v.Passes bindings) ∧ visit.Breaks bindings failure

/-! ### First failures -/

theorem hasValue_of_value {e : Expr} {v : Float} (h : e.value bindings = .ok v) :
    e.HasValue bindings :=
  ⟨v, h, isFinite_of_value h⟩

namespace FirstBreak

variable {vs vs' : List Visit} {visit : Visit} {failure failure' : Failure}

theorem of_head (h : failure.node.value bindings = .error failure)
    (hbreaks : visit.Breaks bindings failure) : FirstBreak bindings (visit :: vs) failure :=
  ⟨h, [], visit, vs, rfl, nofun, hbreaks⟩

theorem append_right (h : FirstBreak bindings vs failure) (vs' : List Visit) :
    FirstBreak bindings (vs ++ vs') failure := by
  obtain ⟨hnode, before, visit, after, rfl, hbefore, hbreaks⟩ := h
  exact ⟨hnode, before, visit, after ++ vs', by simp, hbefore, hbreaks⟩

theorem append_left (h : FirstBreak bindings vs' failure)
    (hvs : ∀ v ∈ vs, v.Passes bindings) : FirstBreak bindings (vs ++ vs') failure := by
  obtain ⟨hnode, before, visit, after, rfl, hbefore, hbreaks⟩ := h
  exact ⟨hnode, vs ++ before, visit, after, by simp, List.forall_mem_append.2 ⟨hvs, hbefore⟩,
    hbreaks⟩

theorem cons (h : FirstBreak bindings vs failure) (hvisit : visit.Passes bindings) :
    FirstBreak bindings (visit :: vs) failure := by
  rw [← List.singleton_append]
  exact h.append_left (List.forall_mem_singleton.2 hvisit)

theorem not_breaks_of_passes (h : failure.node.value bindings = .error failure)
    (hpasses : visit.Passes bindings) : ¬visit.Breaks bindings failure := by
  intro hbreaks
  cases visit with
  | lookUp function args =>
    obtain ⟨f, hf⟩ := hpasses
    exact hbreaks.1 f hf
  | complete node =>
    obtain ⟨v, hv, -⟩ := hpasses
    obtain ⟨-, hnode⟩ := hbreaks
    rw [hnode, hv] at h
    cases h

theorem not_passes (h : FirstBreak bindings vs failure) : ¬∀ v ∈ vs, v.Passes bindings := by
  obtain ⟨hnode, before, visit, after, rfl, -, hbreaks⟩ := h
  intro hvs
  have hpasses := hvs visit (List.mem_append_right before List.mem_cons_self)
  exact not_breaks_of_passes hnode hpasses hbreaks

theorem eq_of_breaks (h : failure.node.value bindings = .error failure)
    (h' : failure'.node.value bindings = .error failure') (hbreaks : visit.Breaks bindings failure)
    (hbreaks' : visit.Breaks bindings failure') : failure = failure' := by
  cases visit with
  | lookUp function args => exact hbreaks.2.trans hbreaks'.2.symm
  | complete node =>
    rw [hbreaks.2] at h
    rw [hbreaks'.2] at h'
    exact Except.error.inj (h.symm.trans h')

/-- Evaluation fails at one node only. -/
theorem unique (h : FirstBreak bindings vs failure) (h' : FirstBreak bindings vs failure') :
    failure = failure' := by
  obtain ⟨hnode, before, visit, after, rfl, hbefore, hbreaks⟩ := h
  obtain ⟨hnode', before', visit', after', heq, hbefore', hbreaks'⟩ := h'
  induction before generalizing before' with
  | nil =>
    cases before' with
    | nil =>
      obtain ⟨rfl, -⟩ := List.cons.inj heq
      exact eq_of_breaks hnode hnode' hbreaks hbreaks'
    | cons v before' =>
      obtain ⟨rfl, -⟩ := List.cons.inj heq
      exact absurd hbreaks (not_breaks_of_passes hnode (hbefore' _ List.mem_cons_self))
  | cons v before ih =>
    cases before' with
    | nil =>
      obtain ⟨rfl, -⟩ := List.cons.inj heq
      exact absurd hbreaks' (not_breaks_of_passes hnode' (hbefore _ List.mem_cons_self))
    | cons v' before' =>
      obtain ⟨-, heq⟩ := List.cons.inj heq
      exact ih (List.forall_mem_cons.1 hbefore).2 before' heq
        (List.forall_mem_cons.1 hbefore').2

end FirstBreak

/-! ### The run of an evaluation -/

theorem complete_mem_visits (e : Expr) : .complete e ∈ e.visits := by
  cases e <;> simp [visits]

theorem complete_mem_allVisits {e : Expr} : {es : List Expr} → e ∈ es → .complete e ∈ allVisits es
  | e' :: es, h => by
    rw [allVisits, List.mem_append]
    rcases List.mem_cons.1 h with rfl | h
    · exact .inl e.complete_mem_visits
    · exact .inr (complete_mem_allVisits h)

mutual

/-- A tree that has a value is gone through to its end. -/
theorem passes_of_value {v : Float} : (e : Expr) → e.value bindings = .ok v →
    ∀ visit ∈ e.visits, visit.Passes bindings
  | number _, h | var _, h => by
    rw [visits, List.forall_mem_singleton]
    exact hasValue_of_value h
  | unary op operand, h => by
    have hself : HasValue bindings (unary op operand) := hasValue_of_value h
    rw [value] at h
    obtain ⟨a, ha, -⟩ := bind_eq_ok.1 h
    rw [visits, List.forall_mem_append, List.forall_mem_singleton]
    exact ⟨passes_of_value operand ha, hself⟩
  | binary op lhs rhs, h => by
    have hself : HasValue bindings (binary op lhs rhs) := hasValue_of_value h
    rw [value] at h
    obtain ⟨a, ha, h⟩ := bind_eq_ok.1 h
    obtain ⟨b, hb, -⟩ := bind_eq_ok.1 h
    rw [visits, List.forall_mem_append, List.forall_mem_append, List.forall_mem_singleton]
    exact ⟨passes_of_value lhs ha, passes_of_value rhs hb, hself⟩
  | call function args, h => by
    have hself : HasValue bindings (call function args) := hasValue_of_value h
    rw [value] at h
    split at h
    · cases h
    · next f hf =>
      obtain ⟨vs, hvs, -⟩ := bind_eq_ok.1 h
      rw [visits, List.forall_mem_cons, List.forall_mem_append, List.forall_mem_singleton]
      exact ⟨MathFunction.exists_name_of_resolve hf, passes_of_values args hvs, hself⟩

theorem passes_of_values {vs : List Float} : (es : List Expr) → values bindings es = .ok vs →
    ∀ visit ∈ allVisits es, visit.Passes bindings
  | [], _ => List.forall_mem_nil _
  | e :: es, h => by
    rw [values] at h
    obtain ⟨v, hv, h⟩ := bind_eq_ok.1 h
    obtain ⟨vs, hvs, -⟩ := bind_eq_ok.1 h
    rw [allVisits, List.forall_mem_append]
    exact ⟨passes_of_value e hv, passes_of_values es hvs⟩

end

theorem hasValue_of_values {es : List Expr} {vs : List Float} (h : values bindings es = .ok vs) :
    ∀ e ∈ es, e.HasValue bindings :=
  fun e he => passes_of_values es h (.complete e) (complete_mem_allVisits he)

/-- A node that fails once its operands have values is completed last, and fails there. -/
theorem firstBreak_complete {node : Expr} {failure : Failure}
    (h : node.value bindings = .error failure) (hnode : failure.node = node)
    (hoperands : ∀ e ∈ node.operands, e.HasValue bindings) :
    FirstBreak bindings [.complete node] failure :=
  .of_head (by rw [hnode, h]) ⟨hoperands, hnode⟩

mutual

/-- Where evaluation fails, it stops at the first visit that does not go well. -/
theorem firstBreak_of_value {failure : Failure} : (e : Expr) →
    e.value bindings = .error failure → FirstBreak bindings e.visits failure
  | number _, h | var _, h => firstBreak_complete h (node_of_settle h) nofun
  | unary op operand, h => by
    have hself := h
    rw [value] at h
    rw [visits]
    rcases bind_eq_error.1 h with h | ⟨a, ha, h⟩
    · exact (firstBreak_of_value operand h).append_right _
    · refine (firstBreak_complete hself (node_of_settle h) ?_).append_left
        (passes_of_value operand ha)
      exact List.forall_mem_singleton.2 (hasValue_of_value ha)
  | binary op lhs rhs, h => by
    have hself := h
    rw [value] at h
    rw [visits]
    rcases bind_eq_error.1 h with h | ⟨a, ha, h⟩
    · exact (firstBreak_of_value lhs h).append_right _
    refine FirstBreak.append_left ?_ (passes_of_value lhs ha)
    rcases bind_eq_error.1 h with h | ⟨b, hb, h⟩
    · exact (firstBreak_of_value rhs h).append_right _
    · refine (firstBreak_complete hself (node_of_settle h) ?_).append_left
        (passes_of_value rhs hb)
      exact List.forall_mem_cons.2
        ⟨hasValue_of_value ha, List.forall_mem_singleton.2 (hasValue_of_value hb)⟩
  | call function args, h => by
    have hself := h
    rw [value] at h
    rw [visits]
    split at h
    · next reason hreason =>
      obtain ⟨hunknown, rfl⟩ := MathFunction.resolve_eq_error_iff.1 hreason
      cases h
      exact .of_head hself ⟨hunknown, rfl⟩
    · next f hf =>
      refine FirstBreak.cons ?_ (MathFunction.exists_name_of_resolve hf)
      rcases bind_eq_error.1 h with h | ⟨vs, hvs, h⟩
      · exact (firstBreak_of_values args h).append_right _
      · exact (firstBreak_complete hself (node_of_settle h) (hasValue_of_values hvs)).append_left
          (passes_of_values args hvs)

theorem firstBreak_of_values {failure : Failure} : (es : List Expr) →
    values bindings es = .error failure → FirstBreak bindings (allVisits es) failure
  | [], h => by
    rw [values] at h
    cases h
  | e :: es, h => by
    rw [values] at h
    rw [allVisits]
    rcases bind_eq_error.1 h with h | ⟨v, hv, h⟩
    · exact (firstBreak_of_value e h).append_right _
    rcases bind_eq_error.1 h with h | ⟨vs, -, h⟩
    · exact (firstBreak_of_values es h).append_left (passes_of_value e hv)
    · cases h

end

/-- Evaluation fails with a reason at a node exactly if the node is the first in the order of
evaluation that has no value by its own doing. -/
theorem value_eq_error_iff_failsAt {e : Expr} {failure : Failure} :
    e.value bindings = .error failure ↔ e.FailsAt bindings failure := by
  constructor
  · intro h
    obtain ⟨hnode, hfirst⟩ := firstBreak_of_value e h
    exact ⟨e.node_mem_subtrees h, hnode, hfirst⟩
  · rintro ⟨-, hnode, hfirst⟩
    have hbreak : FirstBreak bindings e.visits failure := ⟨hnode, hfirst⟩
    cases h : e.value bindings with
    | ok v => exact absurd (passes_of_value e h) hbreak.not_passes
    | error failure' => rw [(firstBreak_of_value e h).unique hbreak]

end Expr

namespace Formula

/-- What evaluation of a formula says where it fails, and when it does not fail. -/
structure NamesFailure (f : Formula) (bindings : Bindings) : Prop where
  /-- The tree fails where the definition of failing says, and nowhere else. -/
  failsAt : ∀ failure, f.expr.value bindings = .error failure ↔ f.expr.FailsAt bindings failure
  /-- The report has the text of the whole formula, and that of the node that fails. -/
  reported : ∀ error, f.evaluate bindings = .error error ↔
    ∃ failure, f.expr.FailsAt bindings failure ∧
      error = .evalFailed f.source failure.node.text failure.reason
  /-- If no node fails, there is a value, which is a finite number. -/
  succeeds : (¬∃ failure, f.expr.FailsAt bindings failure) →
    ∃ v, f.evaluate bindings = .ok v ∧ v.isFinite

theorem evaluate_of_value_eq_error {f : Formula} {failure : Expr.Failure}
    (h : f.expr.value bindings = .error failure) :
    f.evaluate bindings = .error (.evalFailed f.source failure.node.text failure.reason) := by
  rw [evaluate, h]

/-- Evaluation of a text that was read points at the node that really fails, for all values of the
variables. -/
theorem namesFailure_of_parse {source : String} {limits : ParseLimits} {f : Formula}
    (h : parse source limits = .ok f) (bindings : Bindings) :
    f.source = source ∧ f.NamesFailure bindings := by
  obtain ⟨e, -, rfl⟩ := parse_eq_ok_iff.1 h
  refine ⟨rfl, fun failure => Expr.value_eq_error_iff_failsAt, fun error => ?_, fun hno => ?_⟩
  · constructor
    · intro herror
      obtain ⟨failure, hvalue, rfl⟩ := evaluate_eq_error herror
      exact ⟨failure, Expr.value_eq_error_iff_failsAt.1 hvalue, rfl⟩
    · rintro ⟨failure, hfails, rfl⟩
      exact evaluate_of_value_eq_error (Expr.value_eq_error_iff_failsAt.2 hfails)
  · cases hvalue : e.value bindings with
    | ok v =>
      refine ⟨v, ?_, Expr.isFinite_of_value hvalue⟩
      rw [evaluate, hvalue]
    | error failure => exact absurd ⟨failure, Expr.value_eq_error_iff_failsAt.1 hvalue⟩ hno

/-- A formula with two parts that may fail: a quotient in an argument, and a call of a function that
there is not, whose argument has no value either. -/
def ambush : Formula where
  source := "max(1, ATTACK / (SPEED - 7)) + eval(1 / 0)"
  expr := .binary .add
    (.call "max" [.number 1,
      .binary .div (.var "ATTACK") (.binary .sub (.var "SPEED") (.number 7))])
    (.call "eval" [.binary .div (.number 1) (.number 0)])
  variableNames := ["ATTACK", "SPEED"]

/-- At speed seven the quotient fails, and not the call around it. At speed eight the unknown call
fails, and not its argument. -/
theorem namesFailure_of_parse_ambush :
    parse "max(1, ATTACK / (SPEED - 7)) + eval(1 / 0)" = .ok ambush ∧
    ambush.expr.FailsAt (.ofList [("ATTACK", 4), ("SPEED", 7)]) ⟨.divisionByZero .div,
      .binary .div (.var "ATTACK") (.binary .sub (.var "SPEED") (.number 7))⟩ ∧
    ambush.expr.FailsAt (.ofList [("ATTACK", 4), ("SPEED", 8)]) ⟨.unknownFunction "eval",
      .call "eval" [.binary .div (.number 1) (.number 0)]⟩ := by
  have hparse : parse "max(1, ATTACK / (SPEED - 7)) + eval(1 / 0)" = .ok ambush := by
    decide +kernel
  refine ⟨hparse, ?_, ?_⟩
  · exact ((namesFailure_of_parse hparse _).2.failsAt _).1 (by decide +kernel)
  · exact ((namesFailure_of_parse hparse _).2.failsAt _).1 (by decide +kernel)

end Formula

end CharacterSheet
