import CharacterSheet.Proofs.ByteOrder
import CharacterSheet.Proofs.Evaluation
import CharacterSheet.Proofs.FormulaText

/-!
# What a formula can observe

A text that is read as a formula is evaluated against the values of its variables, and it sees
nothing else. Callers learn from the list of variables what they have to supply.

* `Expr.var_mem_subtrees_iff` — the variables of a tree are the names at its variable nodes;
* `Expr.IsReadable.isName` — what names a tree that was read can have;
* `Formula.Sandboxed` — what the list of variables says about evaluation;
* `Formula.sandboxed_of_parse` — it says so of every formula that was read.
-/

namespace CharacterSheet

/-! ### The names of a tree -/

namespace Expr

mutual

theorem var_mem_subtrees_iff {name : String} : (e : Expr) →
    (var name ∈ e.subtrees ↔ name ∈ e.occurrences)
  | number _ => by simp [subtrees, occurrences]
  | var other => by simp [subtrees, occurrences]
  | unary op operand => by
    simpa [subtrees, occurrences] using var_mem_subtrees_iff operand
  | binary op lhs rhs => by
    simpa [subtrees, occurrences] using
      or_congr (var_mem_subtrees_iff lhs) (var_mem_subtrees_iff rhs)
  | call function args => by
    simpa [subtrees, occurrences] using var_mem_allSubtrees_iff args

theorem var_mem_allSubtrees_iff {name : String} : (es : List Expr) →
    (var name ∈ allSubtrees es ↔ name ∈ allOccurrences es)
  | [] => by simp [allSubtrees, allOccurrences]
  | e :: es => by
    simpa [allSubtrees, allOccurrences] using
      or_congr (var_mem_subtrees_iff e) (var_mem_allSubtrees_iff es)

end

/-- A name stands in a tree, as a variable or as what is called. -/
def Mentions (e : Expr) (name : String) : Prop :=
  var name ∈ e.subtrees ∨ ∃ args, call name args ∈ e.subtrees

theorem Mentions.mem_leaves {e : Expr} {name : String} (h : e.Mentions name) :
    Token.name name ∈ e.leaves := by
  rcases h with h | ⟨args, h⟩
  · exact leaves_subset_of_mem_subtrees e h List.mem_cons_self
  · exact leaves_subset_of_mem_subtrees e h List.mem_cons_self

theorem IsReadable.isName {e : Expr} {name : String} (he : e.IsReadable) (h : e.Mentions name) :
    IsName name :=
  he _ h.mem_leaves

end Expr

/-! ### The variables of a formula -/

namespace Formula

/-- A formula depends on the variables that it lists, and on nothing else. -/
structure Sandboxed (f : Formula) : Prop where
  /-- The list goes up in the order of bytes, and so has each name once. -/
  increasing : f.variableNames.Pairwise fun a b => Names.bytes a < Names.bytes b
  /-- It has the names at the variable nodes. What is only called is no variable. -/
  mem_iff : ∀ name, name ∈ f.variableNames ↔ .var name ∈ f.expr.subtrees
  /-- A letter or underscore, then letters, digits and underscores, and no reserved word. -/
  isName : ∀ name, f.expr.Mentions name → IsName name
  /-- Values of other names make no difference, neither to a value nor to what a failure says. -/
  congr : ∀ b₁ b₂ : Bindings, (∀ name ∈ f.variableNames, b₁ name = b₂ name) →
    f.evaluate b₁ = f.evaluate b₂
  /-- No variable is skipped on the way to a value. -/
  finite : ∀ bindings v, f.evaluate bindings = .ok v →
    (∀ name ∈ f.variableNames, ∃ x, bindings name = some x ∧ x.isFinite) ∧ v.isFinite
  /-- With all variables supplied, none is found missing. -/
  ne_unbound : ∀ bindings : Bindings, (∀ name ∈ f.variableNames, bindings name ≠ none) →
    ∀ source part reason, f.evaluate bindings = .error (.evalFailed source part reason) →
    ∀ name, reason ≠ .unboundVariable name

variable {source : String} {limits : ParseLimits} {f : Formula}

theorem mem_variableNames_of_parse (h : parse source limits = .ok f) {name : String} :
    name ∈ f.variableNames ↔ name ∈ f.expr.occurrences := by
  obtain ⟨e, -, rfl⟩ := parse_eq_ok_iff.1 h
  exact Expr.mem_variableNames

theorem bytes_increasing_of_parse (h : parse source limits = .ok f) :
    f.variableNames.Pairwise fun a b => Names.bytes a < Names.bytes b := by
  obtain ⟨e, -, rfl⟩ := parse_eq_ok_iff.1 h
  exact (Names.sorted_ofList e.occurrences).imp Names.bytes_lt_bytes_iff.2

/-- Every text that is read as a formula, under whatever limits, can observe its variables only. -/
theorem sandboxed_of_parse (h : parse source limits = .ok f) : f.Sandboxed where
  increasing := bytes_increasing_of_parse h
  mem_iff name := by
    rw [mem_variableNames_of_parse h]
    exact f.expr.var_mem_subtrees_iff.symm
  isName name hname := (isReadable h).isName hname
  congr b₁ b₂ hagree :=
    evaluate_congr fun name hname => hagree name ((mem_variableNames_of_parse h).2 hname)
  finite bindings v hv := by
    have hvalue := evaluate_eq_ok hv
    refine ⟨fun name hname => ?_, Expr.isFinite_of_value hvalue⟩
    exact f.expr.bound_of_value hvalue name ((mem_variableNames_of_parse h).1 hname)
  ne_unbound bindings hbound source part reason hfailed := by
    refine ne_unbound_of_evaluate (fun name hname => ?_) hfailed
    exact hbound name ((mem_variableNames_of_parse h).2 hname)

/-- A formula in which `max` is both called and supplied. -/
def parry : Formula where
  source := "max(max, SPEED) / 2"
  expr := .binary .div (.call "max" [.var "max", .var "SPEED"]) (.number 2)
  variableNames := ["SPEED", "max"]

/-- Evaluation sees the variable `max` and the variable `SPEED`, and no value of another name. -/
theorem sandboxed_of_parse_parry : parse "max(max, SPEED) / 2" = .ok parry ∧
    parry.evaluate (.ofList [("SPEED", 8), ("max", 3)]) = .ok 4 ∧
    parry.evaluate (.ofList [("SPEED", 8), ("floor", 1), ("max", 3)]) = .ok 4 := by
  have hparse : parse "max(max, SPEED) / 2" = .ok parry := by decide +kernel
  have hvalue : parry.evaluate (.ofList [("SPEED", 8), ("max", 3)]) = .ok 4 := by decide +kernel
  refine ⟨hparse, hvalue, ?_⟩
  rw [← hvalue]
  exact (sandboxed_of_parse hparse).congr _ _ (by decide +kernel)

end Formula

end CharacterSheet
