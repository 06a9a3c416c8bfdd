import Mathlib.Logic.Relation
import CharacterSheet.Bonus.Operation

/-!
# The edges of a graph of bonuses

What the operations do to the bonuses that are there and to the edges between them.

* `BonusGraph.Has`, `BonusGraph.FedBy` — a bonus is there, and one bonus feeds another;
* `BonusGraph.fedBy_ensure`, `BonusGraph.fedBy_addEdge` — the edges of a changed graph;
* `BonusGraph.catalog_perform` — operations leave the catalog as it is;
* `BonusGraph.Closed`, `BonusGraph.closed_run` — whatever feeds a bonus is there, however a graph
  was built;
* `BonusGraph.ReachesCycle` — a bonus is fed, perhaps through others, by one that feeds itself.
-/

namespace CharacterSheet.BonusGraph

open Relation

/-- A bonus is there. -/
def Has (g : BonusGraph) (name : String) : Prop := (g.bonus? name).isSome

/-- One bonus is fed by another. -/
def FedBy (g : BonusGraph) (target source : String) : Prop := source ∈ g.enhancersOf target

/-- From a bonus along the edges to what feeds it, a cycle is reached. -/
def ReachesCycle (g : BonusGraph) (name : String) : Prop :=
  ∃ first, ReflTransGen g.FedBy name first ∧ TransGen g.FedBy first first

/-- Whatever feeds a bonus is there. -/
def Closed (g : BonusGraph) : Prop := ∀ target source, g.FedBy target source → g.Has source

variable {g : BonusGraph} {name a b source target : String}

theorem fedBy_iff : g.FedBy a b ↔ ∃ bonus, g.bonus? a = some bonus ∧ b ∈ bonus.enhancedBy := by
  unfold FedBy enhancersOf
  cases g.bonus? a <;> simp

theorem has_iff : g.Has name ↔ ∃ bonus, g.bonus? name = some bonus := Option.isSome_iff_exists

theorem FedBy.has (h : g.FedBy a b) : g.Has a := by
  obtain ⟨bonus, hbonus, -⟩ := fedBy_iff.1 h
  exact has_iff.2 ⟨bonus, hbonus⟩

/-! ### Single changes -/

theorem bonus?_adjust (f : Bonus → Bonus) : (g.adjust name f).bonus? a =
    if a = name then (g.bonus? name).map f else g.bonus? a :=
  NameMap.get?_adjust g.bonuses name a f

theorem has_adjust (f : Bonus → Bonus) : (g.adjust name f).Has a ↔ g.Has a := by
  rw [Has, bonus?_adjust]
  split
  · next h => rw [h, Option.isSome_map, Has]
  · rfl

theorem fedBy_adjust {f : Bonus → Bonus} (hf : ∀ bonus, (f bonus).enhancedBy = bonus.enhancedBy) :
    (g.adjust name f).FedBy a b ↔ g.FedBy a b := by
  simp only [fedBy_iff, bonus?_adjust]
  split
  · next h =>
    subst h
    cases g.bonus? a <;> simp [hf]
  · rfl

theorem bonus?_insert (bonus : Bonus) :
    bonus? { g with bonuses := g.bonuses.insert name bonus } a =
      if a = name then some bonus else g.bonus? a :=
  NameMap.get?_insert g.bonuses name a bonus

theorem has_insert (bonus : Bonus) :
    Has { g with bonuses := g.bonuses.insert name bonus } a ↔ a = name ∨ g.Has a := by
  rw [Has, bonus?_insert]
  split
  · next h => simp [h]
  · next h => simp [h, Has]

/-- A new bonus that nothing feeds brings no edge. -/
theorem fedBy_insert {bonus : Bonus} (hbonus : bonus.enhancedBy = []) (hname : ¬g.Has name) :
    FedBy { g with bonuses := g.bonuses.insert name bonus } a b ↔ g.FedBy a b := by
  rw [fedBy_iff, bonus?_insert]
  split
  · next h =>
    refine iff_of_false (by simp [hbonus]) fun hedge => hname ?_
    rw [← h]
    exact hedge.has
  · exact fedBy_iff.symm

theorem contains_iff : g.bonuses.contains name ↔ g.Has name := Iff.rfl

theorem has_ensure : (g.ensure name).Has a ↔ a = name ∨ g.Has a := by
  unfold ensure
  split
  · next h =>
    refine ⟨.inr, ?_⟩
    rintro (rfl | ha)
    · exact h
    · exact ha
  · exact has_insert _

theorem fedBy_ensure : (g.ensure name).FedBy a b ↔ g.FedBy a b := by
  unfold ensure
  split
  · rfl
  · next h => exact fedBy_insert rfl h

theorem mem_addSource {bonus : Bonus} :
    b ∈ (bonus.addSource source).enhancedBy ↔ b ∈ bonus.enhancedBy ∨ b = source := by
  unfold Bonus.addSource
  split
  · next h =>
    refine ⟨.inl, ?_⟩
    rintro (hb | rfl)
    · exact hb
    · exact h
  · simp

theorem has_addEdge : (g.addEdge source target).Has a ↔ g.Has a := has_adjust _

theorem fedBy_addEdge : (g.addEdge source target).FedBy a b ↔
    g.FedBy a b ∨ g.Has target ∧ a = target ∧ b = source := by
  rw [fedBy_iff, addEdge, bonus?_adjust]
  split
  · next h =>
    subst h
    cases hbonus : g.bonus? a <;> simp [fedBy_iff, has_iff, hbonus, mem_addSource]
  · next h => simp [fedBy_iff, h]

/-! ### Wiring -/

/-- The graph in which a bonus feeds some others, which are put in if they are new. -/
def feedAll (g : BonusGraph) (name : String) (targets : List String) : BonusGraph :=
  targets.foldl (fun g target => (g.ensure target).addEdge name target) g

/-- The graph in which a bonus is fed by some others, which are put in if they are new. -/
def feedFrom (g : BonusGraph) (name : String) (sources : List String) : BonusGraph :=
  sources.foldl (fun g source => (g.ensure source).addEdge source name) g

theorem wire_eq (g : BonusGraph) (name : String) (metadata : BonusMetadata) :
    g.wire name metadata = ((g.feedAll name metadata.enhances).feedFrom name
      metadata.enhancedBy.toList).adjust name fun b => { b with isWired := true } := rfl

/-! ### The catalog stays -/

theorem catalog_ensure : (g.ensure name).catalog = g.catalog := by
  unfold ensure
  split <;> rfl

theorem catalog_wire (name : String) (metadata : BonusMetadata) :
    (g.wire name metadata).catalog = g.catalog := by
  have hfed : ∀ g' : BonusGraph, g'.catalog = g.catalog → ∀ other source target,
      ((g'.ensure other).addEdge source target).catalog = g.catalog :=
    fun g' hg' _ _ _ => catalog_ensure.trans hg'
  refine List.foldlRecOn (motive := fun g' => g'.catalog = g.catalog) _ _ ?_
    fun g' hg' _ _ => hfed g' hg' ..
  exact List.foldlRecOn (motive := fun g' => g'.catalog = g.catalog) _ _ rfl
    fun g' hg' _ _ => hfed g' hg' ..

theorem catalog_perform {op : Operation} {next : BonusGraph} (hop : g.perform op = .ok next) :
    next.catalog = g.catalog := by
  cases op with
  | add name value =>
    simp only [BonusGraph.perform, add] at hop
    repeat' split at hop
    all_goals cases hop
    · exact catalog_ensure
    · exact (catalog_wire _ _).trans catalog_ensure
    · exact catalog_ensure
  | insert | link =>
    simp only [BonusGraph.perform, insert, link] at hop
    repeat' split at hop
    all_goals cases hop
    rfl

/-! ### Whatever feeds a bonus is there -/

namespace Closed

theorem adjust (h : g.Closed) {f : Bonus → Bonus}
    (hf : ∀ bonus, (f bonus).enhancedBy = bonus.enhancedBy) : (g.adjust name f).Closed := by
  intro target source hedge
  rw [has_adjust]
  exact h target source ((fedBy_adjust hf).1 hedge)

theorem insert (h : g.Closed) {bonus : Bonus} (hbonus : bonus.enhancedBy = [])
    (hname : ¬g.Has name) : Closed { g with bonuses := g.bonuses.insert name bonus } := by
  intro target source hedge
  rw [has_insert]
  exact .inr (h target source ((fedBy_insert hbonus hname).1 hedge))

theorem ensure (h : g.Closed) (name : String) : (g.ensure name).Closed := by
  intro target source hedge
  rw [has_ensure]
  exact .inr (h target source (fedBy_ensure.1 hedge))

theorem addEdge (h : g.Closed) (hsource : g.Has source) : (g.addEdge source target).Closed := by
  intro target' source' hedge
  rw [has_addEdge]
  rcases fedBy_addEdge.1 hedge with hedge | ⟨-, -, rfl⟩
  · exact h target' source' hedge
  · exact hsource

end Closed

theorem closed_empty (catalog : BonusCatalog) (config : EngineConfig) :
    (empty catalog config).Closed := by
  intro target source hedge
  cases hedge

/-- The edges that the catalog lists lead from and to bonuses that are put in with them. -/
theorem Closed.wire (h : g.Closed) (hname : g.Has name) (metadata : BonusMetadata) :
    (g.wire name metadata).Closed := by
  let feed (g : BonusGraph) (target : String) : BonusGraph := (g.ensure target).addEdge name target
  -- the edges to what is fed lead from the bonus itself, which is kept
  have hfed : (metadata.enhances.foldl feed g).Closed ∧
      (metadata.enhances.foldl feed g).Has name := by
    refine List.foldlRecOn (motive := fun g => g.Closed ∧ g.Has name) _ feed ⟨h, hname⟩ ?_
    intro g hg target _
    have hensured : (g.ensure target).Has name := has_ensure.2 (.inr hg.2)
    exact ⟨(hg.1.ensure target).addEdge hensured, has_addEdge.2 hensured⟩
  refine Closed.adjust ?_ fun _ => rfl
  refine List.foldlRecOn (motive := Closed) _ _ hfed.1 ?_
  intro g hg source _
  exact (hg.ensure source).addEdge (has_ensure.2 (.inl rfl))

theorem Closed.perform (h : g.Closed) {op : Operation} {next : BonusGraph}
    (hop : g.perform op = .ok next) : next.Closed := by
  cases op with
  | add name value =>
    have hraised (f : Bonus → Bonus) (hf : ∀ bonus, (f bonus).enhancedBy = bonus.enhancedBy) :
        ((g.ensure name).adjust name f).Closed := (h.ensure name).adjust hf
    have hname (f : Bonus → Bonus) : ((g.ensure name).adjust name f).Has name :=
      (has_adjust f).2 (has_ensure.2 (.inl rfl))
    simp only [BonusGraph.perform, add] at hop
    repeat' split at hop
    all_goals cases hop
    · exact hraised _ fun _ => rfl
    · refine (hraised _ ?_).wire (hname _) _
      exact fun _ => rfl
    · exact hraised _ fun _ => rfl
  | insert name value modifier =>
    simp only [BonusGraph.perform, BonusGraph.insert] at hop
    split at hop
    · cases hop
    · next hname =>
      split at hop
      · cases hop
      · cases hop
        exact h.insert rfl hname
  | link source target =>
    simp only [BonusGraph.perform, link] at hop
    split at hop
    · cases hop
    · next hsource =>
      split at hop
      · cases hop
      · cases hop
        exact h.addEdge (contains_iff.1 (by simpa using hsource))

/-- Whatever feeds a bonus is there, however a graph was built. -/
theorem closed_run (catalog : BonusCatalog) (config : EngineConfig) (ops : List Operation) :
    ((empty catalog config).run ops).Closed :=
  History.run_induction (fun _ _ _ hop h => h.perform hop) (closed_empty catalog config) ops

end CharacterSheet.BonusGraph
