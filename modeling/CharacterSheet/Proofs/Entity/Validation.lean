import CharacterSheet.Proofs.Aggregation
import CharacterSheet.Proofs.Entity.Queries

/-!
# What validation says about queries

The formulas of an enhancer are read when its content is validated, and they are read again in each
query. Both times it is the same formulas and the same limits, so content that is valid fails only
where a formula has no value for the present numbers, and content that is not valid fails.

* `Enhancer.validateFormulas_eq_ok_iff`, `Enhancer.validateFormulas_eq_error` — what the validation
  of an enhancer is about;
* `EntityError.IsEvaluationFailure` — a formula has no value, although all its names have one;
* `Entity.AllValid`, `Entity.isEvaluationFailure_of_statistic` — how characters with valid enhancers
  fail;
* `Entity.exists_statistic_eq_error` — a custom property that cannot be read makes its statistic
  fail;
* `Entity.ValidationPredicts`, `Entity.run_validationPredicts` — this holds of both queries at every
  character.
-/

namespace CharacterSheet

variable {error : AggregationError} {limits : ParseLimits}

/-! ### Enhancers -/

namespace Enhancer

variable {h : Enhancer}

theorem validateFormulas_eq_ok_iff : h.validateFormulas limits = .ok () ↔
    ∀ p ∈ h.properties, p.isCustom → ∃ formula, p.compile limits = .ok formula := by
  unfold validateFormulas
  rw [forM_eq_mapM, map_eq_ok]
  constructor
  · rintro ⟨units, hunits, -⟩ p hp hcustom
    have hfilter : p ∈ h.properties.filter Property.isCustom := List.mem_filter.2 ⟨hp, hcustom⟩
    obtain ⟨u, hu⟩ := exists_mapM_eq_ok_iff.1 ⟨units, hunits⟩ p hfilter
    obtain ⟨formula, hformula, -⟩ := map_eq_ok.1 hu
    exact ⟨formula, hformula⟩
  · intro hall
    have hu : ∀ p ∈ h.properties.filter Property.isCustom,
        ∃ u, (p.compile limits).map (fun _ => ()) = .ok u := by
      intro p hp
      obtain ⟨hp, hcustom⟩ := List.mem_filter.1 hp
      obtain ⟨formula, hformula⟩ := hall p hp hcustom
      exact ⟨(), map_eq_ok.2 ⟨formula, hformula, rfl⟩⟩
    obtain ⟨units, hunits⟩ := exists_mapM_eq_ok_iff.2 hu
    exact ⟨units, hunits, rfl⟩

/-- What is reported is why one of the custom properties cannot be read. -/
theorem validateFormulas_eq_error (herror : h.validateFormulas limits = .error error) :
    ∃ p ∈ h.properties, p.isCustom ∧ p.compile limits = .error error := by
  unfold validateFormulas at herror
  rw [forM_eq_mapM, map_eq_error, mapM_eq_error_iff] at herror
  obtain ⟨p, hp, hcompile⟩ := herror.exists_mem
  obtain ⟨hp, hcustom⟩ := List.mem_filter.1 hp
  exact ⟨p, hp, hcustom, map_eq_error.1 hcompile⟩

end Enhancer

/-! ### Errors -/

/-- A formula has no value, and this is not for want of the value of a name. -/
inductive EntityError.IsEvaluationFailure : EntityError → Prop
  | intro {statistic source part : String} {reason : EvalError}
    (hbound : ∀ name, reason ≠ .unboundVariable name) :
    IsEvaluationFailure (.aggregation (.formula statistic (.evalFailed source part reason)))

theorem EntityError.IsEvaluationFailure.severity_eq {error : EntityError}
    (h : error.IsEvaluationFailure) : error.severity = .recoverable := by
  cases h
  rfl

namespace Entity

/-- All attached enhancers are valid under the limits of the character. -/
def AllValid (e : Entity) : Prop :=
  ∀ h ∈ e.enhancers, h.validateFormulas e.config.formulaLimits = .ok ()

instance (e : Entity) : Decidable e.AllValid := inferInstanceAs (Decidable (∀ _ ∈ _, _))

/-- The queries of a character fail as the validation of its enhancers predicts. -/
structure ValidationPredicts (e : Entity) : Prop where
  /-- With valid enhancers, a registered statistic may only fail for the present numbers. -/
  statistic_of_valid : e.AllValid → ∀ b ∈ e.statistics, ∀ error,
    e.statistic b.name = .error error → error.IsEvaluationFailure ∧ error.severity = .recoverable
  /-- The same is true of all statistics. -/
  snapshot_of_valid : e.AllValid → ∀ error,
    e.snapshot = .error error → error.IsEvaluationFailure ∧ error.severity = .recoverable
  /-- An enhancer that is not valid makes the statistic fail that its validation names. -/
  statistic_of_invalid : ∀ h ∈ e.enhancers, ∀ error,
    h.validateFormulas e.config.formulaLimits = .error error →
    ∀ b ∈ e.statistics, b.name = error.statistic → ∃ error, e.statistic b.name = .error error
  /-- Then there is no answer about all statistics either. -/
  snapshot_of_invalid : ∀ h ∈ e.enhancers, ∀ error,
    h.validateFormulas e.config.formulaLimits = .error error →
    ∀ b ∈ e.statistics, b.name = error.statistic → ∃ error, e.snapshot = .error error

variable {e : Entity} {name : String} {b : Statistic}

/-! ### One statistic -/

theorem AllValid.exists_compile (hvalid : e.AllValid) {p : Property}
    (hp : p ∈ e.propertiesFor name) (hcustom : p.isCustom) :
    ∃ formula, p.compile e.config.formulaLimits = .ok formula := by
  obtain ⟨h, hh, hp⟩ := List.mem_flatMap.1 hp
  exact Enhancer.validateFormulas_eq_ok_iff.1 (hvalid h hh) p (List.mem_of_mem_filter hp) hcustom

theorem isEvaluationFailure_of_statistic (hvalid : e.AllValid) (hb : e.base? name = some b)
    {error : EntityError} (h : e.statistic name = .error error) : error.IsEvaluationFailure := by
  rcases statistic_eq_error h with ⟨hnone, -⟩ | ⟨b, inner, -, rfl, -, hcompute⟩
  · rw [hb] at hnone
    cases hnone
  · obtain ⟨p, hp, hvalue⟩ := (ActualStatistic.compute_eq_error_iff.1 hcompute).exists_mem
    obtain ⟨hp, hcustom⟩ := List.mem_filter.1 hp
    obtain ⟨formula, hformula⟩ := hvalid.exists_compile hp hcustom
    -- reading succeeded in the validation, and every name has a value: an input or a count
    rcases Property.customValue_eq_error hvalue with hcompile | ⟨_, source, -, hevaluate, rfl⟩
    · rw [hformula] at hcompile
      cases hcompile
    · obtain ⟨failure, -, rfl⟩ := Formula.evaluate_eq_error hevaluate
      exact .intro (Formula.ne_unbound_of_evaluate
        (fun name _ => Aggregates.bindings_ne_none _ name) hevaluate)

/-- A custom property that cannot be read leaves its statistic without an answer, whatever else
there is. -/
theorem exists_statistic_eq_error (hb : e.base? name = some b) {p : Property}
    (hp : p ∈ e.propertiesFor name) (hcustom : p.isCustom)
    (hcompile : p.compile e.config.formulaLimits = .error error) :
    ∃ error, e.statistic name = .error error := by
  obtain ⟨-, rfl⟩ := mem_of_base? hb
  have hfails : ∃ inner, ActualStatistic.compute b (e.propertiesFor b.name) e.keywords.count
      e.config.formulaLimits = .error inner := by
    simp only [ActualStatistic.compute_eq_error_iff]
    refine exists_failsFirst_iff.2 ⟨p, List.mem_filter.2 ⟨hp, hcustom⟩, error, ?_⟩
    exact Property.customValue_of_compile hcompile
  obtain ⟨inner, hinner⟩ := hfails
  refine ⟨.aggregation inner, ?_⟩
  rw [statistic_of_base? hb]
  exact mapError_eq_error.2 ⟨inner, hinner, rfl⟩

/-- The statistic that the validation of an attached enhancer names has no answer. -/
theorem exists_error_of_validateFormulas (hb : e.base? name = some b) {h : Enhancer}
    (hh : h ∈ e.enhancers) (herror : h.validateFormulas e.config.formulaLimits = .error error)
    (hname : name = error.statistic) : ∃ error, e.statistic name = .error error := by
  obtain ⟨p, hp, hcustom, hcompile⟩ := Enhancer.validateFormulas_eq_error herror
  have hstatistic : p.statistic = name := by
    rw [hname, Property.statistic_of_compile hcompile]
  have hgroup : p ∈ h.propertiesFor name := List.mem_filter.2 ⟨hp, beq_iff_eq.2 hstatistic⟩
  exact exists_statistic_eq_error hb (List.mem_flatMap.2 ⟨h, hh, hgroup⟩) hcustom hcompile

/-! ### Both queries -/

theorem isEvaluationFailure_of_snapshot (hnodup : (e.statistics.map (·.name)).Nodup)
    (hvalid : e.AllValid) {error : EntityError} (h : e.snapshot = .error error) :
    error.IsEvaluationFailure := by
  obtain ⟨b, hb, herror⟩ := (((queriesAgree hnodup).error_iff error).1 h).exists_mem
  exact isEvaluationFailure_of_statistic hvalid (base?_of_mem hnodup hb) herror

/-- A statistic without an answer leaves all statistics without one. -/
theorem exists_snapshot_eq_error (hnodup : (e.statistics.map (·.name)).Nodup)
    (hb : b ∈ e.statistics) (h : ∃ error, e.statistic b.name = .error error) :
    ∃ error, e.snapshot = .error error := by
  have hfails : ∃ error, FailsFirst (fun b => e.statistic b.name) e.statistics error :=
    exists_failsFirst_iff.2 ⟨b, hb, h⟩
  obtain ⟨error, herror⟩ := hfails
  exact ⟨error, ((queriesAgree hnodup).error_iff error).2 herror⟩

theorem validationPredicts (hnodup : (e.statistics.map (·.name)).Nodup) :
    e.ValidationPredicts where
  statistic_of_valid hvalid b hb error herror := by
    have hfailure := isEvaluationFailure_of_statistic hvalid (base?_of_mem hnodup hb) herror
    exact ⟨hfailure, hfailure.severity_eq⟩
  snapshot_of_valid hvalid error herror := by
    have hfailure := isEvaluationFailure_of_snapshot hnodup hvalid herror
    exact ⟨hfailure, hfailure.severity_eq⟩
  statistic_of_invalid h hh error herror b hb hname :=
    exists_error_of_validateFormulas (base?_of_mem hnodup hb) hh herror hname
  snapshot_of_invalid h hh error herror b hb hname := by
    refine exists_snapshot_eq_error hnodup hb ?_
    exact exists_error_of_validateFormulas (base?_of_mem hnodup hb) hh herror hname

/-- However a character came about, validation says how its queries fail. -/
theorem run_validationPredicts (config : EngineConfig) (ops : List Operation) :
    (({ config } : Entity).run ops).ValidationPredicts :=
  validationPredicts (names_nodup_run config ops)

/-- A statistic. -/
def power : Statistic := { name := "POWER", baseValue := 8 }

/-- An enhancer that sets it to the value of a formula. -/
def staff (formula : String) : Enhancer := .ofProperties "staff" [.custom "POWER" formula]

/-- A character that has both. -/
def mage (formula : String) : List Operation := [.register power, .attach (staff formula)]

/-- A valid formula may have no value at present, and one that is not valid never has. -/
theorem run_validationPredicts_mage :
    (∃ error, (({} : Entity).run (mage "base_value / MANA")).statistic "POWER" = .error error ∧
      error.IsEvaluationFailure) ∧
    ∃ error, (({} : Entity).run (mage "base_value /")).snapshot = .error error := by
  constructor
  · have h := run_validationPredicts {} (mage "base_value / MANA")
    have hvalid : (({} : Entity).run (mage "base_value / MANA")).AllValid := by decide +kernel
    have hfails : (({} : Entity).run (mage "base_value / MANA")).statistic "POWER" =
        .error (.aggregation (.formula "POWER"
          (.evalFailed "base_value / MANA" "base_value / MANA" (.divisionByZero .div)))) := by
      decide +kernel
    exact ⟨_, hfails, (h.statistic_of_valid hvalid power (by decide +kernel) _ hfails).1⟩
  · have h := run_validationPredicts {} (mage "base_value /")
    have hinvalid : (staff "base_value /").validateFormulas {} =
        .error (.formula "POWER" (.parseRejected "base_value /" .unexpectedEnd)) := by
      decide +kernel
    exact h.snapshot_of_invalid (staff "base_value /") (by decide +kernel) _ hinvalid power
      (by decide +kernel) rfl

end Entity

end CharacterSheet
