import CharacterSheet.Proofs.Aggregation
import CharacterSheet.Proofs.Entity.Steps

/-!
# One statistic, and all of them

A character is asked for one statistic or for all. Both answers come from the same properties, and
the names of statistics are distinct, so what is found under a name is the same either way.

* `Entity.statistic_eq_ok`, `Entity.statistic_eq_error` — what the answer for one statistic is
  about;
* `Entity.snapshot_eq_mapM` — all statistics are asked for one by one;
* `Entity.QueriesAgree` — one query says what the other one says;
* `Entity.run_queriesAgree` — they do so at every character.
-/

namespace CharacterSheet.Entity

/-- The answer about all statistics is put together from the answers about each of them. -/
structure QueriesAgree (e : Entity) : Prop where
  /-- All statistics have an answer if each one has. -/
  ok_iff : (∃ s, e.snapshot = .ok s) ↔ ∀ b ∈ e.statistics, ∃ a, e.statistic b.name = .ok a
  /-- There is one entry for each statistic, in the order of registration. -/
  names : ∀ s, e.snapshot = .ok s → s.statistics.map (·.name) = e.statistics.map (·.name)
  /-- What is found under the name of a statistic is its own answer, with its base value. -/
  get?_of_mem : ∀ s, e.snapshot = .ok s → ∀ b ∈ e.statistics, ∃ a,
    e.statistic b.name = .ok a ∧ s.get? b.name = some a ∧ a.baseValue = b.baseValue
  /-- Nothing is found under other names. -/
  get?_of_not_mem : ∀ s, e.snapshot = .ok s → ∀ name, name ∉ e.statistics.map (·.name) →
    s.get? name = none
  /-- Otherwise the error is that of the first registered statistic that has no answer. -/
  error_iff : ∀ error, e.snapshot = .error error ↔
    FailsFirst (fun b => e.statistic b.name) e.statistics error
  /-- What cannot be worked out is reported under the name that was asked for. -/
  statistic_of_error : ∀ name error, e.statistic name = .error (.aggregation error) →
    error.statistic = name

variable {e : Entity} {name : String} {b : Statistic} {a : ActualStatistic} {s : Snapshot}
  {error : EntityError}

/-! ### One statistic -/

theorem statistic_of_mem_propertiesFor {p : Property} (h : p ∈ e.propertiesFor name) :
    p.statistic = name := by
  obtain ⟨enhancer, -, hp⟩ := List.mem_flatMap.1 h
  exact eq_of_beq (List.mem_filter.1 hp).2

theorem statistic_of_base? (h : e.base? name = some b) : e.statistic name = e.compute b := by
  simp only [statistic, h]

theorem statistic_eq_ok (h : e.statistic name = .ok a) :
    ∃ b, e.base? name = some b ∧ a.name = name ∧ a.baseValue = b.baseValue := by
  cases hb : e.base? name with
  | none =>
    simp only [statistic, hb] at h
    cases h
  | some b =>
    rw [statistic_of_base? hb] at h
    have hcompute := mapError_eq_ok.1 h
    refine ⟨b, rfl, ?_, ActualStatistic.baseValue_of_compute hcompute⟩
    rw [ActualStatistic.name_of_compute hcompute]
    exact (mem_of_base? hb).2

/-- A statistic is not registered, or it cannot be worked out. -/
theorem statistic_eq_error (h : e.statistic name = .error error) :
    e.base? name = none ∧ error = .unknownStatistic name ∨
      ∃ b inner, e.base? name = some b ∧ error = .aggregation inner ∧ inner.statistic = name ∧
        ActualStatistic.compute b (e.propertiesFor name) e.keywords.count e.config.formulaLimits =
          .error inner := by
  cases hb : e.base? name with
  | none =>
    simp only [statistic, hb] at h
    cases h
    exact .inl ⟨rfl, rfl⟩
  | some b =>
    rw [statistic_of_base? hb] at h
    obtain ⟨inner, hcompute, rfl⟩ := mapError_eq_error.1 h
    obtain ⟨-, rfl⟩ := mem_of_base? hb
    refine .inr ⟨b, inner, rfl, rfl, ?_, hcompute⟩
    exact ActualStatistic.statistic_of_compute (fun p hp => statistic_of_mem_propertiesFor hp)
      hcompute

/-! ### All statistics -/

theorem snapshot_eq_mapM (hnodup : (e.statistics.map (·.name)).Nodup) :
    e.snapshot = (e.statistics.mapM fun b => e.statistic b.name).map Snapshot.mk := by
  have hcompute : ∀ b ∈ e.statistics, e.compute b = e.statistic b.name := fun b hb =>
    (statistic_of_base? (base?_of_mem hnodup hb)).symm
  unfold snapshot
  rw [mapM_congr hcompute]
  cases e.statistics.mapM fun b => e.statistic b.name <;> rfl

/-- The answers about some statistics have their names. -/
theorem names_of_forall₂ {bs : List Statistic} {as : List ActualStatistic}
    (h : List.Forall₂ (fun b a => e.statistic b.name = .ok a) bs as) :
    as.map (·.name) = bs.map (·.name) := by
  induction h with
  | nil => rfl
  | cons hb _ ih =>
    obtain ⟨-, -, hname, -⟩ := statistic_eq_ok hb
    rw [List.map_cons, List.map_cons, ih, hname]

theorem find?_of_forall₂ {bs : List Statistic} {as : List ActualStatistic}
    (h : List.Forall₂ (fun b a => e.statistic b.name = .ok a) bs as)
    (hname : name ∈ bs.map (·.name)) :
    ∃ a, e.statistic name = .ok a ∧ as.find? (fun a => a.name == name) = some a := by
  induction h with
  | nil => simp at hname
  | @cons b a bs as hb _ ih =>
    obtain ⟨-, -, ha, -⟩ := statistic_eq_ok hb
    by_cases heq : b.name = name
    · exact ⟨a, heq ▸ hb, List.find?_cons_of_pos (by simp [ha, heq])⟩
    · have hrest : name ∈ bs.map (·.name) := (List.mem_cons.1 hname).resolve_left (Ne.symm heq)
      rw [List.find?_cons_of_neg (by simp [ha, heq])]
      exact ih hrest

theorem queriesAgree (hnodup : (e.statistics.map (·.name)).Nodup) : e.QueriesAgree where
  ok_iff := by
    rw [snapshot_eq_mapM hnodup, ← exists_mapM_eq_ok_iff]
    constructor
    · rintro ⟨s, h⟩
      obtain ⟨as, has, -⟩ := map_eq_ok.1 h
      exact ⟨as, has⟩
    · rintro ⟨as, has⟩
      exact ⟨⟨as⟩, map_eq_ok.2 ⟨as, has, rfl⟩⟩
  names s h := by
    rw [snapshot_eq_mapM hnodup] at h
    obtain ⟨as, has, rfl⟩ := map_eq_ok.1 h
    exact names_of_forall₂ (mapM_eq_ok_iff.1 has)
  get?_of_mem s h b hb := by
    rw [snapshot_eq_mapM hnodup] at h
    obtain ⟨as, has, rfl⟩ := map_eq_ok.1 h
    obtain ⟨a, ha, hfind⟩ := find?_of_forall₂ (mapM_eq_ok_iff.1 has) (List.mem_map_of_mem hb)
    obtain ⟨b', hb', -, hbase⟩ := statistic_eq_ok ha
    obtain rfl : b = b' := Option.some_inj.1 ((base?_of_mem hnodup hb).symm.trans hb')
    exact ⟨a, ha, hfind, hbase⟩
  get?_of_not_mem s h name hname := by
    rw [snapshot_eq_mapM hnodup] at h
    obtain ⟨as, has, rfl⟩ := map_eq_ok.1 h
    rw [← names_of_forall₂ (mapM_eq_ok_iff.1 has)] at hname
    refine List.find?_eq_none.2 fun a ha hbeq => hname ?_
    exact eq_of_beq hbeq ▸ List.mem_map_of_mem ha
  error_iff error := by
    rw [snapshot_eq_mapM hnodup, map_eq_error, mapM_eq_error_iff]
  statistic_of_error name error h := by
    rcases statistic_eq_error h with ⟨-, heq⟩ | ⟨b, inner, -, heq, hname, -⟩
    · cases heq
    · cases heq
      exact hname

/-- However a character came about, its queries agree. -/
theorem run_queriesAgree (config : EngineConfig) (ops : List Operation) :
    (({ config } : Entity).run ops).QueriesAgree :=
  queriesAgree (names_nodup_run config ops)

end CharacterSheet.Entity
