/-!
# Sequences of operations that may fail

An operation makes a new state of a state, or is turned down. In a sequence, an operation that is
turned down leaves the state as it was, and the next one is tried.

* `History.step`, `History.run` — the state after one operation, and after a sequence of them;
* `History.accepted` — the operations of a sequence that succeed;
* `History.run_append` — a sequence may be cut anywhere;
* `History.run_induction` — what every successful operation keeps holds after every sequence;
* `History.accepted_induction` — the same for what relates a state to the operations behind it.
-/

namespace CharacterSheet.History

variable {σ ε Op : Type}

/-- The state after an operation, which may be turned down. -/
def step (perform : σ → Op → Except ε σ) (s : σ) (op : Op) : σ :=
  match perform s op with
  | .ok next => next
  | .error _ => s

/-- The state after a sequence of operations. -/
def run (perform : σ → Op → Except ε σ) (s : σ) (ops : List Op) : σ := ops.foldl (step perform) s

/-- The operations of a sequence that succeed, in their order. -/
def accepted (perform : σ → Op → Except ε σ) (s : σ) : List Op → List Op
  | [] => []
  | op :: ops =>
    match perform s op with
    | .ok next => op :: accepted perform next ops
    | .error _ => accepted perform s ops

variable {perform : σ → Op → Except ε σ}

@[simp] theorem run_nil (s : σ) : run perform s [] = s := rfl

@[simp] theorem run_cons (s : σ) (op : Op) (ops : List Op) :
    run perform s (op :: ops) = run perform (step perform s op) ops := rfl

theorem run_append (s : σ) (ops₁ ops₂ : List Op) :
    run perform s (ops₁ ++ ops₂) = run perform (run perform s ops₁) ops₂ := by
  simp only [run, List.foldl_append]

theorem step_of_ok {s next : σ} {op : Op} (h : perform s op = .ok next) :
    step perform s op = next := by
  simp only [step, h]

theorem step_of_error {s : σ} {op : Op} {error : ε} (h : perform s op = .error error) :
    step perform s op = s := by
  simp only [step, h]

theorem accepted_cons_of_ok {s next : σ} {op : Op} (h : perform s op = .ok next) (ops : List Op) :
    accepted perform s (op :: ops) = op :: accepted perform next ops := by
  simp only [accepted, h]

theorem accepted_cons_of_error {s : σ} {op : Op} {error : ε} (h : perform s op = .error error)
    (ops : List Op) : accepted perform s (op :: ops) = accepted perform s ops := by
  simp only [accepted, h]

theorem run_induction {P : σ → Prop}
    (hstep : ∀ s op next, perform s op = .ok next → P s → P next) {s : σ} (h : P s)
    (ops : List Op) : P (run perform s ops) := by
  induction ops generalizing s with
  | nil => exact h
  | cons op ops ih =>
    rw [run_cons]
    refine ih ?_
    cases hop : perform s op with
    | ok next =>
      rw [step_of_ok hop]
      exact hstep s op next hop h
    | error error =>
      rw [step_of_error hop]
      exact h

theorem accepted_induction_after {P : List Op → σ → Prop}
    (hstep : ∀ done s op next, perform s op = .ok next → P done s → P (done ++ [op]) next) {s : σ}
    {done : List Op} (h : P done s) (ops : List Op) :
    P (done ++ accepted perform s ops) (run perform s ops) := by
  induction ops generalizing s done with
  | nil => rwa [accepted, List.append_nil]
  | cons op ops ih =>
    rw [run_cons]
    cases hop : perform s op with
    | ok next =>
      rw [step_of_ok hop, accepted_cons_of_ok hop, List.append_cons]
      exact ih (hstep done s op next hop h)
    | error error =>
      rw [step_of_error hop, accepted_cons_of_error hop]
      exact ih h

theorem accepted_induction {P : List Op → σ → Prop}
    (hstep : ∀ done s op next, perform s op = .ok next → P done s → P (done ++ [op]) next) {s : σ}
    (h : P [] s) (ops : List Op) : P (accepted perform s ops) (run perform s ops) :=
  accepted_induction_after hstep h ops

/-- What is taken from each operation, when one more is done. -/
theorem filterMap_concat {α : Type} (f : Op → Option α) (done : List Op) (op : Op) :
    (done ++ [op]).filterMap f = done.filterMap f ++ (f op).toList := by
  rw [List.filterMap_append]
  cases h : f op <;> simp [h]

end CharacterSheet.History
