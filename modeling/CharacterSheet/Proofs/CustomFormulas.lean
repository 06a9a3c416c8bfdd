import CharacterSheet.Proofs.Aggregation
import CharacterSheet.Proofs.Interleaving

/-!
# What custom formulas make of a statistic

The formulas of a statistic are evaluated one after the other, and each puts its own value in the
place of what was there. They all have the same inputs, which are what the other properties come to
and the keywords, so that no formula sees the value of another one. One that fails is the end.

* `CustomInputs` — what formulas read;
* `Property.Outcome` — the value of a custom property, or why it has none;
* `ActualStatistic.CustomDecides` — when there is a value, whose it is, and whose failure is
  reported otherwise;
* `ActualStatistic.computeInTurn_customDecides` — this holds for all statistics.
-/

namespace CharacterSheet

variable {p : Property} {properties : List Property} {statistic : String} {s : Statistic}
  {keywords : KeywordCounts} {inputs : Bindings} {limits : ParseLimits}

/-! ### Inputs -/

/-- The inputs of the formulas of a statistic. Of the other properties each kind is one input, and
every other name is a keyword. -/
structure CustomInputs (s : Statistic) (properties : List Property) (keywords : KeywordCounts)
    (inputs : Bindings) : Prop where
  baseValue : inputs "base_value" = some s.baseValue
  additions : inputs "ADDITIONS" =
    some (runningSum (Aggregates.magnitudes .additive properties keywords))
  multiplicators : inputs "MULTIPLICATORS" = some (Binary64.greater 1
    (runningSum (Aggregates.magnitudes .multiplicative properties keywords)))
  additiveMultiplicatively : inputs "ADDITIVE_MULTIPLICATIVELY" =
    some (diminishingStack (Aggregates.magnitudes .additiveMultiplicatively properties keywords))
  keyword : ∀ name, name ∉ ["base_value", "ADDITIONS", "MULTIPLICATORS",
    "ADDITIVE_MULTIPLICATIVELY"] → inputs name = some (keywords name)

theorem customInputs_bindings (s : Statistic) (properties : List Property)
    (keywords : KeywordCounts) :
    CustomInputs s properties keywords
      ((Aggregates.collect s.baseValue properties keywords).bindings keywords) where
  baseValue := rfl
  additions := rfl
  multiplicators := rfl
  additiveMultiplicatively := rfl
  keyword := by
    intro name hname
    have hnone : ReservedInput.ofName? name = none := by
      refine List.find?_eq_none.2 fun i hi hbeq => hname ?_
      rw [← eq_of_beq hbeq]
      exact List.mem_map_of_mem (f := ReservedInput.name) hi
    rw [Aggregates.bindings, hnone]

/-! ### The value of one property -/

/-- What a custom property of a statistic comes to. A formula that is missing or cannot be read is
reported under the statistic that the property names, and one that fails under the statistic that is
worked out. -/
inductive Property.Outcome (statistic : String) (inputs : Bindings) (limits : ParseLimits)
    (p : Property) : Except AggregationError Float → Prop
  | value {source : String} {formula : Formula} {v : Float} (hsource : p.formula = some source)
      (hparse : Formula.parse source limits = .ok formula)
      (hvalue : formula.evaluate inputs = .ok v) : Outcome statistic inputs limits p (.ok v)
  | missing (hsource : p.formula = none) :
      Outcome statistic inputs limits p (.error (.missingFormula p.statistic))
  | unreadable {source : String} {error : FormulaError} (hsource : p.formula = some source)
      (hparse : Formula.parse source limits = .error error) :
      Outcome statistic inputs limits p (.error (.formula p.statistic error))
  | failing {source : String} {formula : Formula} {error : FormulaError}
      (hsource : p.formula = some source) (hparse : Formula.parse source limits = .ok formula)
      (hvalue : formula.evaluate inputs = .error error) :
      Outcome statistic inputs limits p (.error (.formula statistic error))

namespace Property

theorem customValue_of_missing (hsource : p.formula = none) :
    p.customValue statistic inputs limits = .error (.missingFormula p.statistic) := by
  unfold customValue compile
  rw [hsource]
  rfl

theorem customValue_of_source {source : String} (hsource : p.formula = some source) :
    p.customValue statistic inputs limits =
      match Formula.parse source limits with
      | .error error => .error (.formula p.statistic error)
      | .ok formula => (formula.evaluate inputs).mapError (.formula statistic) := by
  unfold customValue compile
  rw [hsource]
  dsimp only
  cases Formula.parse source limits <;> rfl

theorem Outcome.customValue_eq {outcome : Except AggregationError Float}
    (h : p.Outcome statistic inputs limits outcome) :
    p.customValue statistic inputs limits = outcome := by
  cases h with
  | value hsource hparse hvalue =>
    rw [customValue_of_source hsource, hparse]
    dsimp only
    rw [hvalue]
    rfl
  | missing hsource => exact customValue_of_missing hsource
  | unreadable hsource hparse => rw [customValue_of_source hsource, hparse]
  | failing hsource hparse hvalue =>
    rw [customValue_of_source hsource, hparse]
    dsimp only
    rw [hvalue]
    rfl

theorem exists_outcome (p : Property) (statistic : String) (inputs : Bindings)
    (limits : ParseLimits) : ∃ outcome, p.Outcome statistic inputs limits outcome := by
  cases hsource : p.formula with
  | none => exact ⟨_, .missing hsource⟩
  | some source =>
    cases hparse : Formula.parse source limits with
    | error error => exact ⟨_, .unreadable hsource hparse⟩
    | ok formula =>
      cases hvalue : formula.evaluate inputs with
      | error error => exact ⟨_, .failing hsource hparse hvalue⟩
      | ok v => exact ⟨_, .value hsource hparse hvalue⟩

theorem customValue_eq_iff {outcome : Except AggregationError Float} :
    p.customValue statistic inputs limits = outcome ↔
      p.Outcome statistic inputs limits outcome := by
  constructor
  · rintro rfl
    obtain ⟨outcome, h⟩ := p.exists_outcome statistic inputs limits
    rwa [h.customValue_eq]
  · exact Outcome.customValue_eq

end Property

/-! ### The value of a statistic -/

namespace ActualStatistic

/-- Custom properties decide a statistic from the last one to the first, and its failure from the
first one to the last. -/
structure CustomDecides (s : Statistic) (properties : List Property) (keywords : KeywordCounts)
    (limits : ParseLimits) (inputs : Bindings) : Prop where
  /-- There is a value if all of them have one, not only the last. -/
  exists_ok_iff : (∃ a, computeInTurn s properties keywords limits = .ok a) ↔
    ∀ p ∈ properties, p.isCustom → ∃ v, p.Outcome s.name inputs limits (.ok v)
  /-- It is the value of the last one, whatever the others come to. -/
  last : ∀ {a before p after}, computeInTurn s properties keywords limits = .ok a →
    properties = before ++ p :: after → p.isCustom → (∀ q ∈ after, ¬q.isCustom) →
    ∃ v, p.Outcome s.name inputs limits (.ok v) ∧
      a = ⟨s.name, s.baseValue, s.rounding.apply v⟩
  /-- The failure is that of the first one that fails. -/
  error_iff : ∀ {error}, computeInTurn s properties keywords limits = .error error ↔
    ∃ before p after, properties = before ++ p :: after ∧ p.isCustom ∧
      (∀ q ∈ before, q.isCustom → ∃ v, q.Outcome s.name inputs limits (.ok v)) ∧
      p.Outcome s.name inputs limits (.error error)

theorem exists_compute_eq_ok_iff :
    (∃ a, compute s properties keywords limits = .ok a) ↔
      ∀ p ∈ properties, p.isCustom →
        ∃ v, p.valueAmong properties s keywords limits = .ok v := by
  rw [compute_eq_mapM]
  constructor
  · rintro ⟨a, ha⟩ p hp hcustom
    obtain ⟨values, hvalues, -⟩ := map_eq_ok.1 ha
    exact exists_mapM_eq_ok_iff.1 ⟨values, hvalues⟩ p (List.mem_filter.2 ⟨hp, hcustom⟩)
  · intro h
    obtain ⟨values, hvalues⟩ := exists_mapM_eq_ok_iff.2 fun p hp =>
      h p (List.mem_filter.1 hp).1 (List.mem_filter.1 hp).2
    exact ⟨_, map_eq_ok.2 ⟨values, hvalues, rfl⟩⟩

/-- The value of the last custom property stays. -/
theorem eq_of_compute_of_last {a : ActualStatistic} {before after : List Property}
    (h : compute s properties keywords limits = .ok a)
    (hproperties : properties = before ++ p :: after)
    (hcustom : p.isCustom) (hafter : ∀ q ∈ after, ¬q.isCustom) :
    ∃ v, p.valueAmong properties s keywords limits = .ok v ∧
      a = ⟨s.name, s.baseValue, s.rounding.apply v⟩ := by
  have hfilter : properties.filter Property.isCustom = before.filter Property.isCustom ++ [p] := by
    rw [hproperties, List.filter_append, List.filter_cons_of_pos hcustom,
      List.filter_eq_nil_iff.2 hafter]
  rw [compute_eq_mapM, map_eq_ok] at h
  obtain ⟨values, hvalues, rfl⟩ := h
  rw [hfilter] at hvalues
  obtain ⟨earlier, v, -, hv, rfl⟩ := mapM_concat_eq_ok_iff.1 hvalues
  refine ⟨v, hv, ?_⟩
  rw [List.getLast?_concat, Option.getD_some]

/-- Custom formulas overwrite each other. All of them have the same inputs and have to have a value,
the last one's is taken, and the first failure is reported. -/
theorem computeInTurn_customDecides (s : Statistic) (properties : List Property)
    (keywords : KeywordCounts) (limits : ParseLimits) :
    ∃ inputs, CustomInputs s properties keywords inputs ∧
      CustomDecides s properties keywords limits inputs := by
  refine ⟨_, customInputs_bindings s properties keywords, ?_, ?_, ?_⟩
  all_goals simp only [computeInTurn_eq_compute, ← Property.customValue_eq_iff]
  · exact exists_compute_eq_ok_iff
  · exact eq_of_compute_of_last
  · intro error
    exact compute_eq_error_iff.trans failsFirst_filter_iff

/-- The second formula has a value, but the first one has none. -/
example : computeInTurn { name := "LUCK", baseValue := 3 }
    [.custom "LUCK" "RINGS / 0", .custom "LUCK" "RINGS + base_value"] (fun _ => 2) {} =
    .error (.formula "LUCK" (.evalFailed "RINGS / 0" "RINGS / 0" (.divisionByZero .div))) := by
  decide +kernel

end ActualStatistic

end CharacterSheet
