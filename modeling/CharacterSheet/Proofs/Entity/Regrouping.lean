import CharacterSheet.Proofs.Entity.Accounts
import CharacterSheet.Proofs.Entity.Queries
import CharacterSheet.Proofs.Grouping

/-!
# Properties and the enhancers that bring them

An enhancer puts its properties in groups one by one, and a statistic gathers its own group from
each enhancer in turn. What it finds are the properties declared for it, in the order in which they
were declared and attached, so that it makes no difference between which enhancers they are divided.

* `Enhancer.Declaration` — what an enhancer is built from;
* `Entity.propertiesFor_eq_flatMap_groups`, `Entity.propertiesFor_of_declared` — the properties of a
  statistic are gathered group by group, and they are all that are declared for it, in order;
* `Entity.regrouping`, `Entity.run_regrouping` — how some enhancers are replaced by others that
  stand in their place;
* `Entity.IgnoresGrouping` — a statistic is worked out from the declared properties, and replacing
  enhancers by others with the same properties changes none;
* `Entity.ignoresGrouping_run` — this holds for every character.
-/

namespace CharacterSheet

/-- What an enhancer is built from: its properties stand as they were declared. -/
structure Enhancer.Declaration where
  name : String
  properties : List Property
  description : Option String := none
  deriving DecidableEq, Repr

/-- The enhancer that is built. -/
def Enhancer.Declaration.enhancer (d : Declaration) : Enhancer :=
  .declared d.name d.properties d.description

/-- Every enhancer can be built. -/
theorem Enhancer.exists_declaration (h : Enhancer) : ∃ d : Declaration, d.enhancer = h :=
  ⟨⟨h.name, h.properties, h.description⟩,
    (declared_eq_ofProperties ..).trans h.ofProperties_properties⟩

namespace Entity

open Enhancer (Declaration Groups)

variable {e : Entity} {declared before old new after : List Declaration}
  {kept taken more : List Enhancer}

/-- The character with other enhancers attached. -/
def withEnhancers (e : Entity) (declared : List Declaration) : Entity :=
  { e with enhancers := declared.map Declaration.enhancer }

theorem exists_declared (e : Entity) :
    ∃ declared : List Declaration, e.enhancers = declared.map Declaration.enhancer := by
  induction e.enhancers with
  | nil => exact ⟨[], rfl⟩
  | cons h rest ih =>
    obtain ⟨d, rfl⟩ := h.exists_declaration
    obtain ⟨declared, rfl⟩ := ih
    exact ⟨d :: declared, rfl⟩

theorem names_map_enhancer (declared : List Declaration) :
    (declared.map Declaration.enhancer).map (·.name) = declared.map (·.name) :=
  List.map_map

/-! ### The properties of a statistic -/

/-- The groups of a statistic are gathered from the enhancers in turn. -/
theorem propertiesFor_eq_flatMap_groups (h : e.enhancers = declared.map Declaration.enhancer)
    (statistic : String) :
    e.propertiesFor statistic =
      declared.flatMap fun d => (Groups.ofList d.properties).propertiesFor statistic := by
  rw [propertiesFor, h, List.flatMap_map]
  congr 1
  funext d
  exact Enhancer.propertiesFor_declared d.name d.properties d.description statistic

/-- None of the declared properties is lost, none is repeated, and they come in order. -/
theorem propertiesFor_of_declared (h : e.enhancers = declared.map Declaration.enhancer)
    (statistic : String) :
    e.propertiesFor statistic =
      (declared.flatMap (·.properties)).filter fun p => p.statistic == statistic := by
  rw [propertiesFor_eq_flatMap_groups h, List.filter_flatMap]
  congr 1
  funext d
  exact Groups.propertiesFor_ofList d.properties statistic

/-- A statistic knows nothing of enhancers but their properties. -/
theorem compute_withEnhancers (h : e.enhancers = declared.map Declaration.enhancer)
    {others : List Declaration}
    (hproperties : others.flatMap (·.properties) = declared.flatMap (·.properties)) :
    (e.withEnhancers others).compute = e.compute := by
  have hothers : (e.withEnhancers others).enhancers = others.map Declaration.enhancer := rfl
  funext s
  unfold compute
  rw [propertiesFor_of_declared hothers, propertiesFor_of_declared h, hproperties]
  rfl

theorem statistic_withEnhancers (h : e.enhancers = declared.map Declaration.enhancer)
    {others : List Declaration}
    (hproperties : others.flatMap (·.properties) = declared.flatMap (·.properties)) :
    (∀ statistic, (e.withEnhancers others).statistic statistic = e.statistic statistic) ∧
      (e.withEnhancers others).snapshot = e.snapshot := by
  have hcompute := compute_withEnhancers h hproperties
  constructor
  · intro statistic
    have hbase : (e.withEnhancers others).base? statistic = e.base? statistic := rfl
    unfold Entity.statistic
    rw [hbase, hcompute]
  · unfold snapshot
    rw [hcompute]
    rfl

/-! ### Putting other enhancers in the place of some -/

/-- The operations by which enhancers are replaced: those behind them are taken off and put on
again. -/
def regrouping (old new after : List Declaration) : List Operation :=
  (old ++ after).map (fun d => .detach d.name) ++ (new ++ after).map fun d => .attach d.enhancer

theorem run_append (e : Entity) (ops₁ ops₂ : List Operation) :
    e.run (ops₁ ++ ops₂) = (e.run ops₁).run ops₂ :=
  History.run_append e ops₁ ops₂

theorem name_ne_of_nodup {first : Enhancer} {rest : List Enhancer}
    (hnodup : ((kept ++ first :: rest).map (·.name)).Nodup) :
    ∀ h ∈ kept, ¬(h.name == first.name) = true := by
  rw [List.map_append, List.nodup_append] at hnodup
  intro h hh hbeq
  exact hnodup.2.2 h.name (List.mem_map_of_mem hh) first.name List.mem_cons_self (eq_of_beq hbeq)

/-- The last enhancers are taken off, from the first of them on. -/
theorem run_detachAll (heq : e.enhancers = kept ++ taken)
    (hnodup : (e.enhancers.map (·.name)).Nodup) :
    e.run (taken.map fun h => .detach h.name) = { e with enhancers := kept } := by
  induction taken generalizing e with
  | nil =>
    rw [List.append_nil] at heq
    rw [← heq]
    rfl
  | cons first taken ih =>
    have hkept := name_ne_of_nodup (heq ▸ hnodup)
    have hfirst : (first :: taken).eraseP (fun h => h.name == first.name) = taken :=
      List.eraseP_cons_of_pos (beq_self_eq_true first.name)
    have hdetach : (e.detach first.name).enhancers = kept ++ taken := by
      show e.enhancers.eraseP _ = _
      rw [heq, List.eraseP_append_right _ hkept, hfirst]
    exact ih hdetach (hnodup.sublist (List.eraseP_sublist.map _))

/-- Enhancers of unused names are put on. -/
theorem run_attachAll (hnodup : ((e.enhancers ++ more).map (·.name)).Nodup) :
    e.run (more.map .attach) = { e with enhancers := e.enhancers ++ more } := by
  induction more generalizing e with
  | nil =>
    rw [List.append_nil]
    rfl
  | cons first more ih =>
    have hnew : ¬e.isAttached first.name := by
      intro hattached
      obtain ⟨h, hh, hbeq⟩ := List.any_eq_true.1 hattached
      exact name_ne_of_nodup hnodup h hh hbeq
    have hattach : e.perform (.attach first) =
        .ok { e with enhancers := e.enhancers ++ [first] } :=
      perform_eq_ok_iff.2 (.attach hnew)
    rw [List.append_cons] at hnodup ⊢
    rw [List.map_cons, run, History.run_cons, History.step_of_ok hattach]
    exact ih (e := { e with enhancers := e.enhancers ++ [first] }) hnodup

/-- The new enhancers are where the old ones were, and nothing else is different. -/
theorem run_regrouping (heq : e.enhancers = (before ++ old ++ after).map Declaration.enhancer)
    (hnodup : (e.enhancers.map (·.name)).Nodup)
    (hnew : ((before ++ new ++ after).map (·.name)).Nodup) :
    e.run (regrouping old new after) = e.withEnhancers (before ++ new ++ after) := by
  rw [List.append_assoc, List.map_append] at heq
  rw [← names_map_enhancer, List.append_assoc, List.map_append] at hnew
  have hdetach := run_detachAll heq hnodup
  have hattach := run_attachAll (e := e.withEnhancers before) hnew
  rw [List.map_map] at hdetach hattach
  calc e.run (regrouping old new after)
      = (e.run ((old ++ after).map fun d => .detach d.name)).run
          ((new ++ after).map fun d => .attach d.enhancer) := run_append ..
    _ = (e.withEnhancers before).run ((new ++ after).map fun d => .attach d.enhancer) :=
        congrArg (fun e : Entity => e.run _) hdetach
    _ = e.withEnhancers (before ++ (new ++ after)) :=
        hattach.trans (congrArg (fun hs => { e with enhancers := hs }) List.map_append.symm)
    _ = e.withEnhancers (before ++ new ++ after) := by rw [List.append_assoc]

/-! ### Every character -/

/-- How properties are divided between enhancers makes no difference to a character. -/
structure IgnoresGrouping (e : Entity) : Prop where
  declared : ∃ declared : List Declaration, e.enhancers = declared.map Declaration.enhancer
  propertiesFor_eq : ∀ declared : List Declaration,
    e.enhancers = declared.map Declaration.enhancer → ∀ statistic, e.propertiesFor statistic =
      declared.flatMap fun d => (Groups.ofList d.properties).propertiesFor statistic
  /-- A statistic is worked out from all properties declared for it, in the order of attachment and
  declaration. -/
  statistic_eq : ∀ declared : List Declaration,
    e.enhancers = declared.map Declaration.enhancer → ∀ statistic, e.statistic statistic =
      match e.base? statistic with
      | none => .error (.unknownStatistic statistic)
      | some s => (ActualStatistic.compute s
          ((declared.flatMap (·.properties)).filter fun p => p.statistic == statistic)
          e.keywords.count e.config.formulaLimits).mapError .aggregation
  /-- Enhancers that stand next to each other may be replaced by any others that have the same
  properties in the same order, and names that are free. -/
  regroup : ∀ before old new after : List Declaration,
    e.enhancers = (before ++ old ++ after).map Declaration.enhancer →
    new.flatMap (·.properties) = old.flatMap (·.properties) →
    ((before ++ new ++ after).map (·.name)).Nodup →
    e.run (regrouping old new after) = e.withEnhancers (before ++ new ++ after) ∧
      (∀ statistic, (e.withEnhancers (before ++ new ++ after)).statistic statistic =
        e.statistic statistic) ∧
      (e.withEnhancers (before ++ new ++ after)).snapshot = e.snapshot

theorem ignoresGrouping (hnodup : (e.enhancers.map (·.name)).Nodup) : e.IgnoresGrouping where
  declared := e.exists_declared
  propertiesFor_eq declared h := propertiesFor_eq_flatMap_groups h
  statistic_eq declared h statistic := by
    cases hb : e.base? statistic with
    | none => simp only [Entity.statistic, hb]
    | some s =>
      obtain ⟨-, rfl⟩ := mem_of_base? hb
      rw [statistic_of_base? hb, compute, propertiesFor_of_declared h]
  regroup before old new after heq hproperties hnew := by
    refine ⟨run_regrouping heq hnodup hnew, statistic_withEnhancers heq ?_⟩
    simp only [List.flatMap_append, hproperties]

theorem enhancers_nodup_run (config : EngineConfig) (ops : List Operation) :
    ((({ config } : Entity).run ops).enhancers.map (·.name)).Nodup :=
  (History.accepted_induction (P := fun done e => Accounts e done)
    (fun _ _ _ _ hop h => h.step (perform_eq_ok_iff.1 hop)) (accounts_empty config)
    ops).enhancers_nodup

/-- However a character came about, enhancers can be split and merged without a trace. -/
theorem ignoresGrouping_run (config : EngineConfig) (ops : List Operation) :
    (({ config } : Entity).run ops).IgnoresGrouping :=
  ignoresGrouping (enhancers_nodup_run config ops)

/-- Two formulas for one statistic, of which the second one counts. -/
def drill : Declaration :=
  { name := "drill", properties := [.custom "MILITARY" "base_value * 100"] }

def banner : Declaration :=
  { name := "banner"
    properties := [.custom "MILITARY" "base_value + 1",
      { statistic := "MORALE", value := 2, factor := .additive }] }

/-- The same in one enhancer. -/
def camp : Declaration := { name := "camp", properties := drill.properties ++ banner.properties }

def fort : Declaration :=
  { name := "fort", properties := [{ statistic := "MORALE", value := 5, factor := .additive }] }

/-- Operations that attach some enhancers. -/
def muster (declared : List Declaration) : List Operation :=
  .register { name := "MILITARY", baseValue := 2 } ::
    declared.map fun d => .attach d.enhancer

theorem merged_and_split :
    (∀ statistic, ((({} : Entity).run (muster [drill, banner, fort])).run
        (regrouping [drill, banner] [camp] [fort])).statistic statistic =
      (({} : Entity).run (muster [drill, banner, fort])).statistic statistic) ∧
    ∀ statistic, ((({} : Entity).run (muster [camp, fort])).run
        (regrouping [camp] [drill, banner] [fort])).statistic statistic =
      (({} : Entity).run (muster [camp, fort])).statistic statistic := by
  constructor
  · obtain ⟨hrun, hsame, -⟩ := (ignoresGrouping_run {} (muster [drill, banner, fort])).regroup
      [] [drill, banner] [camp] [fort] rfl rfl (by decide)
    exact hrun ▸ hsame
  · obtain ⟨hrun, hsame, -⟩ := (ignoresGrouping_run {} (muster [camp, fort])).regroup
      [] [camp] [drill, banner] [fort] rfl rfl (by decide)
    exact hrun ▸ hsame

end Entity

end CharacterSheet
