import CharacterSheet.Proofs.Aggregation
import CharacterSheet.Proofs.Entity.Queries

/-!
# What has a say in a statistic

A statistic is worked out from its base value, the properties of the enhancers that modify it, and
the counts of the keywords that these properties read. What happens to a character besides these
makes no difference, however much it is.

* `Entity.modifiers`, `Entity.keywordNames` — the enhancers that modify a statistic, and the
  keywords that it reads;
* `Entity.AgreeOn`, `Entity.AgreeOn.statistic_eq` — two characters have the same of all this, and
  then they have the same statistic;
* `Entity.Operation.IsAside`, `Entity.Step.agreeOn` — an operation keeps away from all this, and
  then it leaves it as it was;
* `Entity.statistic_run_of_isAside` — no sequence of such operations changes the statistic.
-/

namespace CharacterSheet

theorem Enhancer.propertiesFor_of_not_mem {h : Enhancer} {statistic : String}
    (hnot : statistic ∉ h.statistics) : h.propertiesFor statistic = [] := by
  refine List.filter_eq_nil_iff.2 fun p hp hbeq => hnot ?_
  rw [Enhancer.statistics, Names.mem_ofList]
  exact eq_of_beq hbeq ▸ List.mem_map_of_mem hp

namespace Entity

variable {e e₁ e₂ e₃ next : Entity} {op : Operation} {statistic name : String}

/-- The enhancers that modify a statistic, in the order of their attachment. -/
def modifiers (e : Entity) (statistic : String) : List Enhancer :=
  e.enhancers.filter fun h => statistic ∈ h.statistics

/-- The keywords that the properties for a statistic read. -/
def keywordNames (e : Entity) (statistic : String) : List String :=
  (e.propertiesFor statistic).flatMap fun p => p.keywordNames e.config.formulaLimits

/-- Two characters have the same of all that a statistic is worked out from. -/
structure AgreeOn (statistic : String) (e₁ e₂ : Entity) : Prop where
  config : e₁.config = e₂.config
  base? : e₁.base? statistic = e₂.base? statistic
  modifiers : e₁.modifiers statistic = e₂.modifiers statistic
  count : ∀ name ∈ e₁.keywordNames statistic, e₁.keywords.count name = e₂.keywords.count name

/-- Other enhancers contribute no properties. -/
theorem propertiesFor_eq_flatMap_modifiers (e : Entity) (statistic : String) :
    e.propertiesFor statistic =
      (e.modifiers statistic).flatMap fun h => h.propertiesFor statistic := by
  unfold propertiesFor modifiers
  induction e.enhancers with
  | nil => rfl
  | cons h rest ih =>
    rw [List.flatMap_cons, ih]
    by_cases hmem : statistic ∈ h.statistics
    · rw [List.filter_cons_of_pos (by simpa using hmem), List.flatMap_cons]
    · rw [List.filter_cons_of_neg (by simpa using hmem), Enhancer.propertiesFor_of_not_mem hmem,
        List.nil_append]

/-! ### Agreement -/

namespace AgreeOn

theorem refl (statistic : String) (e : Entity) : AgreeOn statistic e e :=
  ⟨rfl, rfl, rfl, fun _ _ => rfl⟩

theorem propertiesFor_eq (h : AgreeOn statistic e₁ e₂) :
    e₁.propertiesFor statistic = e₂.propertiesFor statistic := by
  rw [propertiesFor_eq_flatMap_modifiers, h.modifiers, ← propertiesFor_eq_flatMap_modifiers]

theorem keywordNames_eq (h : AgreeOn statistic e₁ e₂) :
    e₁.keywordNames statistic = e₂.keywordNames statistic := by
  unfold keywordNames
  rw [h.propertiesFor_eq, h.config]

theorem trans (h₁₂ : AgreeOn statistic e₁ e₂) (h₂₃ : AgreeOn statistic e₂ e₃) :
    AgreeOn statistic e₁ e₃ where
  config := h₁₂.config.trans h₂₃.config
  base? := h₁₂.base?.trans h₂₃.base?
  modifiers := h₁₂.modifiers.trans h₂₃.modifiers
  count name hname :=
    (h₁₂.count name hname).trans (h₂₃.count name (h₁₂.keywordNames_eq ▸ hname))

/-- What characters agree on is all that the answer about a statistic depends on. -/
theorem statistic_eq (h : AgreeOn statistic e₁ e₂) :
    e₁.statistic statistic = e₂.statistic statistic := by
  have hbase := h.base?
  cases hb : e₁.base? statistic with
  | none =>
    rw [hb] at hbase
    simp only [Entity.statistic, hb, ← hbase]
  | some b =>
    rw [hb] at hbase
    rw [statistic_of_base? hb, statistic_of_base? hbase.symm]
    obtain ⟨-, rfl⟩ := mem_of_base? hb
    have hcount : ∀ p ∈ e₁.propertiesFor b.name, ∀ name ∈ p.keywordNames e₁.config.formulaLimits,
        e₁.keywords.count name = e₂.keywords.count name := fun p hp name hname =>
      h.count name (List.mem_flatMap.2 ⟨p, hp, hname⟩)
    unfold compute
    rw [ActualStatistic.compute_congr hcount, h.propertiesFor_eq, h.config]

end AgreeOn

/-! ### Keeping away -/

/-- An operation is about other statistics, about keywords that a statistic does not read, and about
enhancers that do not modify it. -/
def Operation.IsAside (e : Entity) (statistic : String) : Operation → Prop
  | .register s => s.name ≠ statistic ∧ s.name ∉ e.keywordNames statistic
  | .increase name _ => name ≠ statistic ∧ name ∉ e.keywordNames statistic
  | .addKeyword name _ => name ∉ e.keywordNames statistic
  | .attach enhancer => statistic ∉ enhancer.statistics
  | .detach name => ∀ h ∈ e.enhancers, h.name = name → statistic ∉ h.statistics

instance (e : Entity) (statistic : String) (op : Operation) :
    Decidable (op.IsAside e statistic) :=
  match op with
  | .register _ | .increase .. => inferInstanceAs (Decidable (_ ∧ _))
  | .addKeyword .. | .attach _ => inferInstanceAs (Decidable (¬_))
  | .detach _ => inferInstanceAs (Decidable (∀ _ ∈ _, _))

/-- Whether an operation keeps away depends only on what characters agree on. -/
theorem Operation.IsAside.of_agreeOn (haside : op.IsAside e₁ statistic)
    (h : AgreeOn statistic e₁ e₂) : op.IsAside e₂ statistic := by
  cases op with
  | register s => exact ⟨haside.1, h.keywordNames_eq ▸ haside.2⟩
  | increase name delta => exact ⟨haside.1, h.keywordNames_eq ▸ haside.2⟩
  | addKeyword name amount =>
    unfold IsAside at haside ⊢
    exact h.keywordNames_eq ▸ haside
  | attach enhancer => exact haside
  | detach name =>
    intro enhancer henhancer hname hmem
    have hmodifier : enhancer ∈ e₂.modifiers statistic :=
      List.mem_filter.2 ⟨henhancer, by simpa using hmem⟩
    rw [← h.modifiers] at hmodifier
    exact haside enhancer (List.mem_of_mem_filter hmodifier) hname hmem

/-- An operation that keeps away adds to none of the keywords that are read. -/
theorem Operation.IsAside.amount?_eq_none (haside : op.IsAside e statistic)
    (hname : name ∈ e.keywordNames statistic) : op.amount? name = none := by
  cases op with
  | register s =>
    refine if_neg ?_
    rintro rfl
    exact haside.2 hname
  | increase other delta =>
    refine if_neg ?_
    rintro rfl
    exact haside.2 hname
  | addKeyword other amount =>
    refine if_neg ?_
    rintro rfl
    exact haside hname
  | attach | detach => rfl

theorem Step.base?_of_isAside (h : e.Step op next) (haside : op.IsAside e statistic) :
    next.base? statistic = e.base? statistic := by
  cases hb : e.base? statistic with
  | none =>
    -- a statistic that is not registered becomes registered only under its own name
    rw [base?_eq_none_iff] at hb ⊢
    rw [h.names_eq, List.mem_append, not_or]
    refine ⟨hb, ?_⟩
    cases h with
    | register => simpa [Operation.registered?] using haside.1.symm
    | increase | addKeyword | attach | detach => simp [Operation.registered?]
  | some b =>
    have hdelta : op.delta? statistic = none := by
      cases h with
      | increase => exact if_neg haside.1
      | register | addKeyword | attach | detach => rfl
    rw [h.base?_of_some hb, hdelta, Option.elim_none]

theorem Step.modifiers_of_isAside (h : e.Step op next) (haside : op.IsAside e statistic) :
    next.modifiers statistic = e.modifiers statistic := by
  unfold modifiers
  cases h with
  | register | increase | addKeyword => rfl
  | @attach enhancer =>
    have hnot : statistic ∉ enhancer.statistics := haside
    simp [hnot]
  | @detach name =>
    refine filter_eraseP fun enhancer henhancer hname hmem => ?_
    exact haside enhancer henhancer (eq_of_beq hname) (of_decide_eq_true hmem)

/-- An operation that keeps away leaves everything that a statistic is worked out from. -/
theorem Step.agreeOn (h : e.Step op next) (haside : op.IsAside e statistic) :
    AgreeOn statistic e next where
  config := by cases h <;> rfl
  base? := (h.base?_of_isAside haside).symm
  modifiers := (h.modifiers_of_isAside haside).symm
  count name hname := by
    rw [h.count_eq, haside.amount?_eq_none hname, Option.elim_none]

theorem agreeOn_run (h : ∀ op ∈ History.accepted perform e ops, op.IsAside e statistic) :
    AgreeOn statistic e (e.run ops) := by
  refine History.accepted_induction
    (P := fun done current => (∀ op ∈ done, op.IsAside e statistic) → AgreeOn statistic e current)
    ?_ (fun _ => .refl statistic e) ops h
  -- keeping away is asked of the first character, and agreement carries it to the present one
  intro done current op next hop ih haside
  have hagree : AgreeOn statistic e current := ih fun op hop =>
    haside op (List.mem_append_left _ hop)
  have hop' : op.IsAside current statistic :=
    (haside op (List.mem_append_right _ List.mem_cons_self)).of_agreeOn hagree
  exact hagree.trans ((perform_eq_ok_iff.1 hop).agreeOn hop')

/-- Operations that keep away from a statistic leave its value, or its error, as it was. It does not
matter what the operations are that were turned down. -/
theorem statistic_run_of_isAside (e : Entity) (ops : List Operation) (statistic : String)
    (h : ∀ op ∈ History.accepted perform e ops, op.IsAside e statistic) :
    (e.run ops).statistic statistic = e.statistic statistic :=
  (agreeOn_run h).statistic_eq.symm

/-- A statistic that reads the keywords LEVEL and LUCK. -/
def swordsman : Entity :=
  ({} : Entity).run [
    .register { name := "STRENGTH", baseValue := 12 },
    .addKeyword "LEVEL" 2,
    .attach {
      name := "sword"
      description := none
      properties := [
        { statistic := "STRENGTH", value := 3, factor := .additive, dependsOn := some "LEVEL" },
        .custom "STRENGTH" "base_value + ADDITIONS * (1 + LUCK)"]
      grouped := by decide +kernel }]

/-- Operations on other statistics, keywords and enhancers, and one that is turned down. -/
def errands : List Operation := [
  .register { name := "AGILITY", baseValue := 7 },
  .increase "AGILITY" 1,
  .attach (.ofProperties "boots" [{ statistic := "AGILITY", value := 2, factor := .additive }]),
  .addKeyword "LEVEL" (-1),
  .addKeyword "GOLD" 100,
  .detach "boots"]

theorem statistic_run_of_isAside_swordsman :
    swordsman.keywordNames "STRENGTH" = ["LEVEL", "LUCK"] ∧ swordsman.run errands ≠ swordsman ∧
      (swordsman.run errands).statistic "STRENGTH" = swordsman.statistic "STRENGTH" := by
  refine ⟨by decide +kernel, by decide +kernel, ?_⟩
  exact statistic_run_of_isAside swordsman errands "STRENGTH" (by decide +kernel)

end Entity

end CharacterSheet
