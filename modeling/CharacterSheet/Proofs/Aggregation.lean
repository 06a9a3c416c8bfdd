import CharacterSheet.Aggregation
import CharacterSheet.Proofs.Evaluation
import CharacterSheet.Proofs.FirstFailure

/-!
# What a statistic is made of

A statistic is worked out unless one of its custom properties fails, and then the first one that
does is reported. Nothing but its own properties and the keywords that these read has a say in it.

* `ActualStatistic.compute_eq_mapM` — the custom properties in order, of which the last one counts;
* `ActualStatistic.compute_eq_error_iff`, `ActualStatistic.statistic_of_compute` — how a statistic
  fails, and under whose name this is reported;
* `Property.keywordNames` — the keywords that a property reads;
* `ActualStatistic.compute_congr` — the counts of other keywords make no difference.
-/

namespace CharacterSheet

variable {p : Property} {properties : List Property} {statistic : String} {s : Statistic}
  {keywords k₁ k₂ : KeywordCounts} {inputs : Bindings} {limits : ParseLimits}
  {error : AggregationError}

/-! ### Custom properties -/

namespace Property

theorem statistic_of_compile (h : p.compile limits = .error error) :
    error.statistic = p.statistic := by
  unfold compile at h
  split at h
  · cases h
    rfl
  · obtain ⟨source, -, rfl⟩ := mapError_eq_error.1 h
    rfl

theorem variableNames_of_compile {formula : Formula} (h : p.compile limits = .ok formula) :
    formula.variableNames = formula.expr.variableNames := by
  unfold compile at h
  split at h
  · cases h
  · obtain ⟨e, -, rfl⟩ := Formula.parse_eq_ok_iff.1 (mapError_eq_ok.1 h)
    rfl

theorem customValue_of_compile (h : p.compile limits = .error error) :
    p.customValue statistic inputs limits = .error error := by
  unfold customValue
  rw [h]
  rfl

/-- A custom property fails when its formula is read, or when its formula is evaluated. -/
theorem customValue_eq_error (h : p.customValue statistic inputs limits = .error error) :
    p.compile limits = .error error ∨ ∃ formula source, p.compile limits = .ok formula ∧
      formula.evaluate inputs = .error source ∧ error = .formula statistic source := by
  rcases bind_eq_error.1 h with h | ⟨formula, hformula, h⟩
  · exact .inl h
  · obtain ⟨source, hsource, rfl⟩ := mapError_eq_error.1 h
    exact .inr ⟨formula, source, hformula, hsource, rfl⟩

end Property

/-- The value that a custom property of a statistic has among all its properties. -/
def Property.valueAmong (p : Property) (properties : List Property) (s : Statistic)
    (keywords : KeywordCounts) (limits : ParseLimits) : Except AggregationError Float :=
  p.customValue s.name ((Aggregates.collect s.baseValue properties keywords).bindings keywords)
    limits

namespace ActualStatistic

/-- The custom properties are gone through in order, and the last value is the one that is taken. -/
theorem compute_eq_mapM (s : Statistic) (properties : List Property) (keywords : KeywordCounts)
    (limits : ParseLimits) :
    compute s properties keywords limits =
      ((properties.filter Property.isCustom).mapM
        (fun p : Property => p.valueAmong properties s keywords limits)).map fun values =>
      ⟨s.name, s.baseValue, s.rounding.apply
        (values.getLast?.getD (Aggregates.collect s.baseValue properties keywords).combined)⟩ := by
  show ((properties.filter Property.isCustom).foldlM
    (fun _ p => Property.valueAmong p properties s keywords limits) _ >>= _) = _
  rw [foldlM_eq_mapM]
  cases (properties.filter Property.isCustom).mapM
    (fun p : Property => p.valueAmong properties s keywords limits) <;> rfl

theorem compute_eq_error_iff :
    compute s properties keywords limits = .error error ↔
      FailsFirst (fun p : Property => p.valueAmong properties s keywords limits)
        (properties.filter Property.isCustom) error := by
  rw [compute_eq_mapM, map_eq_error, mapM_eq_error_iff]

theorem name_of_compute {a : ActualStatistic} (h : compute s properties keywords limits = .ok a) :
    a.name = s.name := by
  rw [compute_eq_mapM] at h
  obtain ⟨values, -, rfl⟩ := map_eq_ok.1 h
  rfl

theorem baseValue_of_compute {a : ActualStatistic}
    (h : compute s properties keywords limits = .ok a) : a.baseValue = s.baseValue := by
  rw [compute_eq_mapM] at h
  obtain ⟨values, -, rfl⟩ := map_eq_ok.1 h
  rfl

/-- The statistic that is reported is the one that was asked for, if all properties are for it. -/
theorem statistic_of_compute (hproperties : ∀ p ∈ properties, p.statistic = s.name)
    (h : compute s properties keywords limits = .error error) : error.statistic = s.name := by
  obtain ⟨p, hp, hvalue⟩ := (compute_eq_error_iff.1 h).exists_mem
  rcases Property.customValue_eq_error hvalue with hcompile | ⟨formula, source, -, -, rfl⟩
  · rw [Property.statistic_of_compile hcompile]
    exact hproperties p (List.mem_of_mem_filter hp)
  · rfl

end ActualStatistic

/-! ### The keywords that are read -/

/-- The keywords that a property reads: the one that its magnitude depends on, or those variables of
its formula that are no reserved inputs. -/
def Property.keywordNames (p : Property) (limits : ParseLimits) : List String :=
  if p.isCustom then
    match p.compile limits with
    | .ok formula => formula.variableNames.filter fun name => !isReservedInput name
    | .error _ => []
  else p.dependsOn.toList

theorem Property.effectiveMagnitude_congr (hcustom : ¬p.isCustom)
    (h : ∀ name ∈ p.keywordNames limits, k₁ name = k₂ name) :
    p.effectiveMagnitude k₁ = p.effectiveMagnitude k₂ := by
  unfold keywordNames at h
  rw [if_neg hcustom] at h
  unfold effectiveMagnitude
  split
  · next keyword hkeyword => rw [h keyword (by simp [hkeyword])]
  · rfl

namespace Aggregates

theorem magnitudes_congr {factor : Factor} (hfactor : factor ≠ .custom)
    (h : ∀ p ∈ properties, ∀ name ∈ p.keywordNames limits, k₁ name = k₂ name) :
    magnitudes factor properties k₁ = magnitudes factor properties k₂ := by
  unfold magnitudes
  refine List.map_congr_left fun p hp => ?_
  obtain ⟨hp, hbeq⟩ := List.mem_filter.1 hp
  have hcustom : ¬p.isCustom := by
    simpa [Property.isCustom, eq_of_beq hbeq] using hfactor
  exact Property.effectiveMagnitude_congr hcustom (h p hp)

theorem collect_congr {baseValue : Float}
    (h : ∀ p ∈ properties, ∀ name ∈ p.keywordNames limits, k₁ name = k₂ name) :
    collect baseValue properties k₁ = collect baseValue properties k₂ := by
  unfold collect
  rw [magnitudes_congr (by decide) h, magnitudes_congr (by decide) h,
    magnitudes_congr (by decide) h]

theorem bindings_congr {a : Aggregates} {name : String}
    (h : isReservedInput name = false → k₁ name = k₂ name) :
    a.bindings k₁ name = a.bindings k₂ name := by
  unfold bindings
  split
  · rfl
  · next hname => rw [h (by rw [isReservedInput, hname]; rfl)]

theorem bindings_ne_none (a : Aggregates) (name : String) : a.bindings keywords name ≠ none := by
  unfold bindings
  split <;> nofun

end Aggregates

theorem Property.customValue_congr {a : Aggregates} (hcustom : p.isCustom)
    (h : ∀ name ∈ p.keywordNames limits, k₁ name = k₂ name) :
    p.customValue statistic (a.bindings k₁) limits =
      p.customValue statistic (a.bindings k₂) limits := by
  unfold keywordNames at h
  rw [if_pos hcustom] at h
  unfold customValue
  cases hcompile : p.compile limits with
  | error error => rfl
  | ok formula =>
    rw [hcompile] at h
    have heval : formula.evaluate (a.bindings k₁) = formula.evaluate (a.bindings k₂) := by
      refine Formula.evaluate_congr fun name hname => Aggregates.bindings_congr fun hreserved => ?_
      refine h name (List.mem_filter.2 ⟨?_, by simp [hreserved]⟩)
      rwa [variableNames_of_compile hcompile, Expr.mem_variableNames]
    show (formula.evaluate (a.bindings k₁)).mapError _ =
      (formula.evaluate (a.bindings k₂)).mapError _
    rw [heval]

/-- The counts of keywords that no property reads make no difference. -/
theorem ActualStatistic.compute_congr
    (h : ∀ p ∈ properties, ∀ name ∈ p.keywordNames limits, k₁ name = k₂ name) :
    compute s properties k₁ limits = compute s properties k₂ limits := by
  rw [compute_eq_mapM, compute_eq_mapM, Aggregates.collect_congr h]
  have hvalues : ∀ p ∈ properties.filter Property.isCustom,
      p.valueAmong properties s k₁ limits = p.valueAmong properties s k₂ limits := by
    intro p hp
    obtain ⟨hp, hcustom⟩ := List.mem_filter.1 hp
    unfold Property.valueAmong
    rw [Aggregates.collect_congr h]
    exact Property.customValue_congr hcustom (h p hp)
  rw [mapM_congr hvalues]

end CharacterSheet
