import Mathlib.Tactic.Tauto
import CharacterSheet.Proofs.Bonus.Table

/-!
# The graph of a catalog

A graph that is built by adding to bonuses of its catalog is determined by what was added to each of
them. The catalog says which bonuses are there and what feeds them; the order in which different
bonuses were added to only shows in the order of sources.

* `AddCall`, `BonusGraph.addAll` — calls that add to bonuses, some of which may be turned down;
* `BonusGraph.addCall_eq_ok_iff`, `BonusGraph.accepted_eq_filter` — which calls succeed depends on
  the catalog alone;
* `BonusGraph.IsBuilt`, `BonusGraph.IsBuilt.addTo` — the bonuses and edges after some successful
  calls, and after one more;
* `BonusGraph.IsOfCatalog`, `BonusGraph.EqUpToOrder` — what the catalog says of a graph, and graphs
  that only differ in the order of sources;
* `BonusGraph.addAll_follows_catalog` — what is built is what the catalog says, in whatever order.
-/

namespace CharacterSheet

/-- What the catalog says of a name. -/
def entry (catalog : BonusCatalog) (name : String) : BonusMetadata := (catalog.get? name).getD {}

/-- A call that adds to a bonus. -/
structure AddCall where
  name : String
  value : Option Float := none
  deriving DecidableEq, Repr

namespace AddCall

/-- A call as an operation. -/
def operation (c : AddCall) : BonusGraph.Operation := .add c.name c.value

/-- What a call adds: the value that is stated, or else that of the catalog, or else zero. -/
def amount (catalog : BonusCatalog) (c : AddCall) : Float :=
  (c.value.or (entry catalog c.name).value).getD 0

/-- The catalog has the name and all that its entry mentions, and what is added is finite. -/
def isAccepted (catalog : BonusCatalog) (c : AddCall) : Bool :=
  catalog.contains c.name && (entry catalog c.name).neighbours.all catalog.contains &&
    (c.amount catalog).isFinite

end AddCall

/-- A bonus without what feeds it. -/
def Bonus.own (b : Bonus) : Bonus := { b with enhancedBy := [] }

namespace BonusGraph

variable {catalog : BonusCatalog} {config : EngineConfig} {g next : BonusGraph}
  {done calls : List AddCall} {c : AddCall} {name source target n : String} {b : Bonus}
  {targets sources : List String}

/-- What a call makes of a graph. -/
def addCall (g : BonusGraph) (c : AddCall) : Except BonusError BonusGraph := g.add c.name c.value

/-- A graph after some calls, of which some may be turned down. -/
def addAll (g : BonusGraph) (calls : List AddCall) : BonusGraph := History.run addCall g calls

theorem addAll_eq_run (g : BonusGraph) (calls : List AddCall) :
    g.addAll calls = g.run (calls.map AddCall.operation) := by
  rw [run, History.run, List.foldl_map]
  rfl

/-! ### What feeds what -/

theorem has_feedAll : (g.feedAll source targets).Has n ↔ g.Has n ∨ n ∈ targets := by
  induction targets generalizing g with
  | nil => simp [feedAll]
  | cons target targets ih =>
    show (((g.ensure target).addEdge source target).feedAll source targets).Has n ↔ _
    rw [ih, has_addEdge, has_ensure, List.mem_cons]
    tauto

theorem fedBy_feedAll : (g.feedAll source targets).FedBy target n ↔
    g.FedBy target n ∨ target ∈ targets ∧ n = source := by
  induction targets generalizing g with
  | nil => simp [feedAll]
  | cons first targets ih =>
    show (((g.ensure first).addEdge source first).feedAll source targets).FedBy target n ↔ _
    have hfirst : (g.ensure first).Has first := has_ensure.2 (.inl rfl)
    rw [ih, fedBy_addEdge, fedBy_ensure, List.mem_cons]
    tauto

theorem fedBy_feedFrom (h : g.Has target) : (g.feedFrom target sources).FedBy name n ↔
    g.FedBy name n ∨ name = target ∧ n ∈ sources := by
  induction sources generalizing g with
  | nil => simp [feedFrom]
  | cons first sources ih =>
    show (((g.ensure first).addEdge first target).feedFrom target sources).FedBy name n ↔ _
    have hkept : (g.ensure first).Has target := has_ensure.2 (.inr h)
    rw [ih (has_addEdge.2 hkept), fedBy_addEdge, fedBy_ensure, List.mem_cons]
    tauto

/-- Wiring puts in the edges of the catalog's entry. -/
theorem fedBy_wire (h : g.Has name) (metadata : BonusMetadata) :
    (g.wire name metadata).FedBy target n ↔
      g.FedBy target n ∨ (target ∈ metadata.enhances ∧ n = name) ∨
        (target = name ∧ metadata.enhancedBy = some n) := by
  have hname : (g.feedAll name metadata.enhances).Has name := has_feedAll.2 (.inl h)
  rw [wire_eq, fedBy_adjust (f := fun b => { b with isWired := true }) fun _ => rfl,
    fedBy_feedFrom hname, fedBy_feedAll, Option.mem_toList, or_assoc]

/-! ### Bonuses without their sources -/

/-- The bonus of a name, without what feeds it. -/
def own? (g : BonusGraph) (name : String) : Option Bonus := (g.bonus? name).map Bonus.own

/-- A bonus that is only mentioned. -/
def placeholder (catalog : BonusCatalog) (name : String) : Bonus :=
  { value := 0, modifier := (entry catalog name).modifier }

theorem isSome_own? : (g.own? n).isSome ↔ g.Has n := by
  rw [own?, Option.isSome_map, Has]

theorem own?_adjust (f f' : Bonus → Bonus) (hf : ∀ b, (f b).own = f' b.own) :
    (g.adjust name f).own? n = if n = name then (g.own? n).map f' else g.own? n := by
  rw [own?, bonus?_adjust]
  split
  · next h =>
    subst h
    rw [own?]
    cases g.bonus? n with
    | none => rfl
    | some b => exact congrArg some (hf b)
  · rfl

theorem own?_ensure : (g.ensure name).own? n =
    if n = name then some ((g.own? n).getD (placeholder g.catalog n)) else g.own? n := by
  unfold ensure
  split
  · next h =>
    split
    · next heq =>
      subst heq
      obtain ⟨b, hb⟩ := Option.isSome_iff_exists.1 (isSome_own?.2 (contains_iff.1 h))
      rw [hb, Option.getD_some]
    · rfl
  · next h =>
    rw [own?, bonus?_insert]
    split
    · next heq =>
      subst heq
      have hnone : g.own? n = none :=
        Option.not_isSome_iff_eq_none.1 (mt isSome_own?.1 (mt contains_iff.2 h))
      rw [hnone, Option.getD_none, placeholder, entry]
      cases g.catalog.get? n <;> rfl
    · rfl

theorem own_addSource (b : Bonus) (source : String) : (b.addSource source).own = b.own := by
  unfold Bonus.addSource
  split <;> rfl

theorem own?_addEdge : (g.addEdge source target).own? n = g.own? n := by
  rw [addEdge, own?_adjust _ id fun b => own_addSource b source, Option.map_id, id_eq,
    ite_self]

/-- Putting in what is new brings placeholders, whatever edges come with them. -/
theorem own?_foldl {f : BonusGraph → String → BonusGraph}
    (hcatalog : ∀ g name, (f g name).catalog = g.catalog)
    (hf : ∀ g name n, (f g name).own? n = (g.ensure name).own? n) (names : List String)
    (g : BonusGraph) : (names.foldl f g).catalog = g.catalog ∧ ∀ n, (names.foldl f g).own? n =
      if n ∈ names then some ((g.own? n).getD (placeholder g.catalog n)) else g.own? n := by
  induction names generalizing g with
  | nil => exact ⟨rfl, fun _ => rfl⟩
  | cons first names ih =>
    obtain ⟨hkept, hown⟩ := ih (f g first)
    rw [List.foldl_cons]
    refine ⟨hkept.trans (hcatalog g first), fun n => ?_⟩
    rw [hown, hcatalog, hf, own?_ensure]
    by_cases hfirst : n = first
    · simp [hfirst]
    · simp [hfirst]

theorem own?_wire (g : BonusGraph) (metadata : BonusMetadata) :
    (g.wire name metadata).own? n =
      let kept := if n ∈ metadata.neighbours then some ((g.own? n).getD (placeholder g.catalog n))
        else g.own? n
      if n = name then kept.map fun b => { b with isWired := true } else kept := by
  obtain ⟨hcatalog, hall⟩ := own?_foldl (f := fun g target => (g.ensure target).addEdge name target)
    (fun _ _ => catalog_ensure) (fun _ _ _ => own?_addEdge) metadata.enhances g
  obtain ⟨-, hfrom⟩ := own?_foldl (f := fun g source => (g.ensure source).addEdge source name)
    (fun _ _ => catalog_ensure) (fun _ _ _ => own?_addEdge) metadata.enhancedBy.toList
    (g.feedAll name metadata.enhances)
  have hkept :
      ((g.feedAll name metadata.enhances).feedFrom name metadata.enhancedBy.toList).own? n =
      if n ∈ metadata.neighbours then some ((g.own? n).getD (placeholder g.catalog n))
        else g.own? n := by
    rw [feedFrom, hfrom, feedAll, hcatalog, hall, BonusMetadata.neighbours]
    by_cases henhances : n ∈ metadata.enhances
    · simp [henhances]
    · simp [henhances]
  rw [wire_eq, own?_adjust _ (fun b => { b with isWired := true }) fun _ => rfl, hkept]

/-! ### What a call makes of a graph -/

/-- The graph with the value of a bonus raised. -/
def raised (g : BonusGraph) (c : AddCall) : BonusGraph :=
  (g.ensure c.name).adjust c.name fun b => { b with value := b.value + c.amount g.catalog }

/-- The graph with the value of a bonus raised, and with the bonus wired. -/
def addTo (g : BonusGraph) (c : AddCall) : BonusGraph :=
  match (g.raised c).bonus? c.name with
  | some b => if b.isWired then g.raised c else (g.raised c).wire c.name (entry g.catalog c.name)
  | none => g.raised c

theorem addCall_eq_ok_iff : g.addCall c = .ok next ↔ c.isAccepted g.catalog ∧ g.addTo c = next := by
  unfold addCall add AddCall.isAccepted
  cases hentry : g.catalog.get? c.name with
  | none =>
    have hcontains : g.catalog.contains c.name = false := by rw [NameMap.contains, hentry]; rfl
    simp [hcontains]
  | some metadata =>
    have hcontains : g.catalog.contains c.name = true := by rw [NameMap.contains, hentry]; rfl
    obtain rfl : entry g.catalog c.name = metadata := by rw [entry, hentry, Option.getD_some]
    dsimp only
    cases hmissing :
        (entry g.catalog c.name).neighbours.find? fun n => !g.catalog.contains n with
    | some missing =>
      have hall : (entry g.catalog c.name).neighbours.all g.catalog.contains = false := by
        rw [List.all_eq_false]
        exact ⟨missing, List.mem_of_find?_eq_some hmissing, by
          simpa using List.find?_some hmissing⟩
      simp [hall]
    | none =>
      have hall : (entry g.catalog c.name).neighbours.all g.catalog.contains = true := by
        simpa using hmissing
      show (if !(c.amount g.catalog).isFinite then
        .error (.invalidValue c.name (c.amount g.catalog))
        else .ok (g.addTo c) : Except BonusError BonusGraph) = .ok next ↔ _
      rw [hcontains, hall]
      by_cases hfinite : (c.amount g.catalog).isFinite
      · simp [hfinite]
      · simp [hfinite]

/-! ### What some calls make of the empty graph -/

/-- The names that some calls add to. -/
def addedNames (calls : List AddCall) : List String := calls.map (·.name)

/-- The names that some calls put in: those that they add to, and those that the catalog mentions
with them. -/
def builtNames (catalog : BonusCatalog) (calls : List AddCall) : List String :=
  addedNames calls ++ (addedNames calls).flatMap fun a => (entry catalog a).neighbours

/-- What some calls add to one name, from left to right. -/
def addedValue (catalog : BonusCatalog) (calls : List AddCall) (name : String) : Float :=
  ((calls.filter (·.name = name)).map (·.amount catalog)).foldl (· + ·) 0

/-- The bonus that some calls make, without what feeds it. -/
def builtBonus (catalog : BonusCatalog) (calls : List AddCall) (name : String) : Bonus where
  value := addedValue catalog calls name
  modifier := (entry catalog name).modifier
  isWired := decide (name ∈ addedNames calls)

/-- A graph is what some successful calls make of the empty graph. -/
structure IsBuilt (catalog : BonusCatalog) (done : List AddCall) (g : BonusGraph) : Prop where
  catalog_eq : g.catalog = catalog
  mem_catalog : ∀ n ∈ builtNames catalog done, catalog.contains n
  own?_eq : ∀ n, g.own? n =
    if n ∈ builtNames catalog done then some (builtBonus catalog done n) else none
  fedBy_iff : ∀ target n, g.FedBy target n ↔
    (n ∈ addedNames done ∧ target ∈ (entry catalog n).enhances) ∨
      (target ∈ addedNames done ∧ (entry catalog target).enhancedBy = some n)

theorem mem_addedNames_concat :
    n ∈ addedNames (done ++ [c]) ↔ n ∈ addedNames done ∨ n = c.name := by
  simp [addedNames, eq_comm]

theorem mem_builtNames : n ∈ builtNames catalog done ↔
    n ∈ addedNames done ∨ ∃ a ∈ addedNames done, n ∈ (entry catalog a).neighbours := by
  rw [builtNames, List.mem_append, List.mem_flatMap]

theorem mem_builtNames_concat : n ∈ builtNames catalog (done ++ [c]) ↔
    n ∈ builtNames catalog done ∨ n = c.name ∨ n ∈ (entry catalog c.name).neighbours := by
  simp only [mem_builtNames, mem_addedNames_concat, or_and_right, exists_or, exists_eq_left]
  exact or_or_or_comm

theorem addedValue_concat : addedValue catalog (done ++ [c]) n =
    if n = c.name then addedValue catalog done n + c.amount catalog
    else addedValue catalog done n := by
  rw [addedValue, List.filter_append, List.map_append, List.foldl_append, ← addedValue]
  split
  · next h => simp [h]
  · next h => simp [Ne.symm h]

/-- One more call changes the bonus that it adds to. -/
theorem builtBonus_concat : builtBonus catalog (done ++ [c]) n =
    if n = c.name then
      { builtBonus catalog done n with
        value := (builtBonus catalog done n).value + c.amount catalog, isWired := true }
    else builtBonus catalog done n := by
  unfold builtBonus
  rw [addedValue_concat]
  split
  · next h => simp [mem_addedNames_concat, h]
  · next h => simp [mem_addedNames_concat, h]

/-- A bonus to which nothing was added has only been mentioned. -/
theorem builtBonus_of_not_mem (h : n ∉ addedNames done) :
    builtBonus catalog done n = placeholder catalog n := by
  have hnone : done.filter (·.name = n) = [] := by
    rw [List.filter_eq_nil_iff]
    intro c hc hname
    exact h (List.mem_map.2 ⟨c, hc, by simpa using hname⟩)
  unfold builtBonus placeholder addedValue
  rw [hnone, decide_eq_false h]
  rfl

namespace IsBuilt

theorem has_iff (h : IsBuilt catalog done g) : g.Has n ↔ n ∈ builtNames catalog done := by
  rw [← isSome_own?, h.own?_eq]
  split
  · next hn => exact iff_of_true rfl hn
  · next hn => exact iff_of_false nofun hn

theorem getD_own? (h : IsBuilt catalog done g) :
    (g.own? n).getD (placeholder catalog n) = builtBonus catalog done n := by
  rw [h.own?_eq]
  split
  · rfl
  · next hn => exact (builtBonus_of_not_mem fun hadded => hn (mem_builtNames.2 (.inl hadded))).symm

theorem own?_raised (h : IsBuilt catalog done g) (c : AddCall) : (g.raised c).own? n =
    if n = c.name then
      some { builtBonus catalog done n with
        value := (builtBonus catalog done n).value + c.amount catalog }
    else g.own? n := by
  rw [raised, own?_adjust _ (fun b => { b with value := b.value + c.amount g.catalog })
    fun _ => rfl, own?_ensure, h.catalog_eq, h.getD_own?]
  split <;> rfl

/-- A bonus is wired when it is first added to. -/
theorem addTo_eq (h : IsBuilt catalog done g) (c : AddCall) :
    g.addTo c = if c.name ∈ addedNames done then g.raised c
      else (g.raised c).wire c.name (entry catalog c.name) := by
  have hown := h.own?_raised (n := c.name) c
  rw [if_pos rfl] at hown
  obtain ⟨b, hb, hbown⟩ := Option.map_eq_some_iff.1 hown
  have hwired : b.isWired = decide (c.name ∈ addedNames done) := congrArg Bonus.isWired hbown
  rw [BonusGraph.addTo, hb, h.catalog_eq]
  dsimp only
  rw [hwired]
  by_cases hadded : c.name ∈ addedNames done
  · simp [hadded]
  · simp [hadded]

theorem catalog_raised (h : IsBuilt catalog done g) (c : AddCall) :
    (g.raised c).catalog = catalog :=
  catalog_ensure.trans h.catalog_eq

theorem catalog_addTo (h : IsBuilt catalog done g) (c : AddCall) :
    (g.addTo c).catalog = catalog := by
  rw [h.addTo_eq]
  split
  · exact h.catalog_raised c
  · exact (catalog_wire _ _).trans (h.catalog_raised c)

theorem own?_addTo (h : IsBuilt catalog done g) (c : AddCall) : (g.addTo c).own? n =
    if n ∈ builtNames catalog (done ++ [c]) then some (builtBonus catalog (done ++ [c]) n)
    else none := by
  have hself : c.name ∈ builtNames catalog (done ++ [c]) :=
    mem_builtNames_concat.2 (.inr (.inl rfl))
  rw [h.addTo_eq, builtBonus_concat]
  by_cases hname : n = c.name
  · -- the bonus itself is raised, and wired from now on
    subst hname
    by_cases hadded : c.name ∈ addedNames done
    · rw [if_pos hadded, h.own?_raised, if_pos rfl, if_pos rfl, if_pos hself]
      simp only [builtBonus, hadded, decide_true]
    · rw [if_neg hadded, own?_wire, h.own?_raised, if_pos rfl, if_pos rfl, if_pos rfl, if_pos hself]
      dsimp only
      rw [Option.getD_some, ite_self, Option.map_some]
  · -- others are kept, or put in where the bonus is wired only now and mentions them
    by_cases hadded : c.name ∈ addedNames done
    · have hmem : n ∈ builtNames catalog (done ++ [c]) ↔ n ∈ builtNames catalog done := by
        rw [mem_builtNames_concat, or_iff_left_iff_imp, or_iff_right hname]
        exact fun hn => mem_builtNames.2 (.inr ⟨c.name, hadded, hn⟩)
      rw [if_pos hadded, h.own?_raised, if_neg hname, if_neg hname, h.own?_eq]
      simp only [hmem]
    · rw [if_neg hadded, own?_wire, h.own?_raised, if_neg hname, if_neg hname, if_neg hname,
        h.catalog_raised, h.getD_own?, h.own?_eq]
      simp only [mem_builtNames_concat, hname, false_or]
      by_cases hn : n ∈ (entry catalog c.name).neighbours
      · simp [hn]
      · simp [hn]

theorem fedBy_addTo (h : IsBuilt catalog done g) (c : AddCall) : (g.addTo c).FedBy target n ↔
    (n ∈ addedNames (done ++ [c]) ∧ target ∈ (entry catalog n).enhances) ∨
      (target ∈ addedNames (done ++ [c]) ∧ (entry catalog target).enhancedBy = some n) := by
  have hraised : (g.raised c).FedBy target n ↔ g.FedBy target n := by
    rw [raised, fedBy_adjust (f := fun b => { b with value := b.value + c.amount g.catalog })
      fun _ => rfl, fedBy_ensure]
  rw [h.addTo_eq]
  by_cases hadded : c.name ∈ addedNames done
  · have hsame (m : String) : m ∈ addedNames (done ++ [c]) ↔ m ∈ addedNames done := by
      rw [mem_addedNames_concat, or_iff_left_iff_imp]
      rintro rfl
      exact hadded
    rw [if_pos hadded, hraised, h.fedBy_iff, hsame, hsame]
  · have hname : (g.raised c).Has c.name := (has_adjust _).2 (has_ensure.2 (.inl rfl))
    rw [if_neg hadded, fedBy_wire hname, hraised, h.fedBy_iff, mem_addedNames_concat,
      mem_addedNames_concat, or_and_right, or_and_right]
    have henhances : n = c.name ∧ target ∈ (entry catalog n).enhances ↔
        target ∈ (entry catalog c.name).enhances ∧ n = c.name := by
      rw [and_comm]
      exact and_congr_left fun h => by rw [h]
    have henhancedBy : target = c.name ∧ (entry catalog target).enhancedBy = some n ↔
        target = c.name ∧ (entry catalog c.name).enhancedBy = some n :=
      and_congr_right fun h => by rw [h]
    rw [henhances, henhancedBy, or_or_or_comm]

theorem mem_catalog_addTo (h : IsBuilt catalog done g) (hc : c.isAccepted catalog) :
    ∀ n ∈ builtNames catalog (done ++ [c]), catalog.contains n := by
  unfold AddCall.isAccepted at hc
  rw [Bool.and_eq_true, Bool.and_eq_true, List.all_eq_true] at hc
  obtain ⟨⟨hname, hneighbours⟩, -⟩ := hc
  intro n hn
  rcases mem_builtNames_concat.1 hn with hn | rfl | hn
  · exact h.mem_catalog n hn
  · exact hname
  · exact hneighbours n hn

theorem addTo (h : IsBuilt catalog done g) (hc : c.isAccepted catalog) :
    IsBuilt catalog (done ++ [c]) (g.addTo c) where
  catalog_eq := h.catalog_addTo c
  mem_catalog := h.mem_catalog_addTo hc
  own?_eq _ := h.own?_addTo c
  fedBy_iff _ _ := h.fedBy_addTo c

end IsBuilt

theorem isBuilt_empty (catalog : BonusCatalog) (config : EngineConfig) :
    IsBuilt catalog [] (empty catalog config) where
  catalog_eq := rfl
  mem_catalog _ hn := by cases hn
  own?_eq _ := rfl
  fedBy_iff _ _ := iff_of_false nofun (by simp [addedNames])

/-- The calls of a sequence that succeed. -/
def succeeding (catalog : BonusCatalog) (config : EngineConfig) (calls : List AddCall) :
    List AddCall :=
  History.accepted addCall (empty catalog config) calls

theorem isBuilt_addAll (catalog : BonusCatalog) (config : EngineConfig) (calls : List AddCall) :
    IsBuilt catalog (succeeding catalog config calls) ((empty catalog config).addAll calls) := by
  refine History.accepted_induction ?_ (isBuilt_empty catalog config) calls
  intro done g c next hc h
  obtain ⟨haccepted, rfl⟩ := addCall_eq_ok_iff.1 hc
  exact h.addTo (h.catalog_eq ▸ haccepted)

/-- Whether a call succeeds depends on nothing but the catalog. -/
theorem accepted_eq_filter (hcatalog : g.catalog = catalog) (calls : List AddCall) :
    History.accepted addCall g calls = calls.filter (·.isAccepted catalog) := by
  induction calls generalizing g with
  | nil => rfl
  | cons c calls ih =>
    subst hcatalog
    cases hc : g.addCall c with
    | ok next =>
      have hop : g.perform c.operation = .ok next := hc
      have hnext : next.catalog = g.catalog := catalog_perform hop
      rw [History.accepted_cons_of_ok hc, List.filter_cons_of_pos (addCall_eq_ok_iff.1 hc).1,
        ih hnext]
    | error error =>
      have hrefused : ¬c.isAccepted g.catalog := by
        intro hc'
        cases hc.symm.trans (addCall_eq_ok_iff.2 ⟨hc', rfl⟩)
      rw [History.accepted_cons_of_error hc, List.filter_cons_of_neg hrefused, ih rfl]

/-! ### What the catalog says -/

/-- A graph is what the catalog says of the names that some calls add to. -/
structure IsOfCatalog (catalog : BonusCatalog) (added : List AddCall) (g : BonusGraph) : Prop where
  has_iff : ∀ n, g.Has n ↔
    n ∈ addedNames added ∨ ∃ a ∈ addedNames added, n ∈ (entry catalog a).neighbours
  mem_catalog : ∀ n, g.Has n → catalog.contains n
  fedBy_iff : ∀ target n, g.FedBy target n ↔
    (n ∈ addedNames added ∧ target ∈ (entry catalog n).enhances) ∨
      (target ∈ addedNames added ∧ (entry catalog target).enhancedBy = some n)
  enhancersOf_nodup : ∀ n, (g.enhancersOf n).Nodup
  modifier_eq : ∀ n b, g.bonus? n = some b →
    b.modifier = match (entry catalog n).multipliedBy with
      | some keyword => .multipliedBy keyword
      | none => .identity
  value_eq : ∀ n b, g.bonus? n = some b → b.value = addedValue catalog added n
  isWired_iff : ∀ n b, g.bonus? n = some b → (b.isWired ↔ n ∈ addedNames added)

/-- Two graphs differ in the order of sources at most. -/
structure EqUpToOrder (g g' : BonusGraph) : Prop where
  catalog : g.catalog = g'.catalog
  maxDepth : g.maxDepth = g'.maxDepth
  own?_eq : ∀ n, g.own? n = g'.own? n
  enhancersOf_perm : ∀ n, (g.enhancersOf n).Perm (g'.enhancersOf n)

/-- What calls make of the empty graph is what the catalog says of those that succeed, and the order
of calls that add to different names makes no difference to it. -/
structure FollowsCatalog (catalog : BonusCatalog) (config : EngineConfig) (calls : List AddCall) :
    Prop where
  isOfCatalog : IsOfCatalog catalog (succeeding catalog config calls)
    ((empty catalog config).addAll calls)
  /-- In a table, the numbers of bonuses come on top of that. -/
  standsFor : ((BonusTable.empty catalog config).run (calls.map AddCall.operation)).StandsFor
    ((empty catalog config).addAll calls)
  eqUpToOrder : ∀ calls', (∀ name, calls.filter (·.name = name) = calls'.filter (·.name = name)) →
    EqUpToOrder ((empty catalog config).addAll calls) ((empty catalog config).addAll calls')

theorem IsBuilt.own_of_bonus? (h : IsBuilt catalog done g) (hb : g.bonus? n = some b) :
    b.own = builtBonus catalog done n := by
  have hown : g.own? n = some b.own := by rw [own?, hb, Option.map_some]
  rw [h.own?_eq] at hown
  exact (Option.some.inj (Option.ite_none_right_eq_some.1 hown).2).symm

theorem isOfCatalog_addAll (catalog : BonusCatalog) (config : EngineConfig)
    (calls : List AddCall) : IsOfCatalog catalog (succeeding catalog config calls)
      ((empty catalog config).addAll calls) where
  has_iff n := (isBuilt_addAll catalog config calls).has_iff.trans mem_builtNames
  mem_catalog n hn :=
    have h := isBuilt_addAll catalog config calls
    h.mem_catalog n (h.has_iff.1 hn)
  fedBy_iff := (isBuilt_addAll catalog config calls).fedBy_iff
  enhancersOf_nodup n := by
    rw [addAll_eq_run]
    exact BonusTable.nodup_enhancersOf_run catalog config _ n
  modifier_eq n b hb :=
    congrArg Bonus.modifier ((isBuilt_addAll catalog config calls).own_of_bonus? hb)
  value_eq n b hb := congrArg Bonus.value ((isBuilt_addAll catalog config calls).own_of_bonus? hb)
  isWired_iff n b hb := by
    have hwired := congrArg Bonus.isWired
      ((isBuilt_addAll catalog config calls).own_of_bonus? hb)
    rw [show b.isWired = _ from hwired]
    exact decide_eq_true_iff

section Order

variable {done' calls' : List AddCall}

theorem mem_addedNames_iff : n ∈ addedNames done ↔ done.filter (·.name = n) ≠ [] := by
  rw [Ne, List.filter_eq_nil_iff, addedNames, List.mem_map]
  simp

/-- What is built depends on the calls of each name only. -/
theorem IsBuilt.own?_congr (h : IsBuilt catalog done g) {g' : BonusGraph}
    (h' : IsBuilt catalog done' g')
    (hcalls : ∀ name, done.filter (·.name = name) = done'.filter (·.name = name)) :
    g.own? n = g'.own? n ∧ ∀ m, g.FedBy n m ↔ g'.FedBy n m := by
  have hadded (m : String) : m ∈ addedNames done ↔ m ∈ addedNames done' := by
    rw [mem_addedNames_iff, mem_addedNames_iff, hcalls]
  constructor
  · rw [h.own?_eq, h'.own?_eq]
    simp only [mem_builtNames, builtBonus, addedValue, hcalls, hadded]
  · intro m
    rw [h.fedBy_iff, h'.fedBy_iff, hadded, hadded]

theorem eqUpToOrder_addAll (catalog : BonusCatalog) (config : EngineConfig)
    (h : ∀ name, calls.filter (·.name = name) = calls'.filter (·.name = name)) :
    EqUpToOrder ((empty catalog config).addAll calls) ((empty catalog config).addAll calls') := by
  have hb := isBuilt_addAll catalog config calls
  have hb' := isBuilt_addAll catalog config calls'
  -- those calls of a name that succeed are the same, since the catalog decides
  have hcalls (name : String) : (succeeding catalog config calls).filter (·.name = name) =
      (succeeding catalog config calls').filter (·.name = name) := by
    rw [succeeding, succeeding, accepted_eq_filter rfl, accepted_eq_filter rfl, List.filter_comm, h,
      List.filter_comm]
  refine ⟨hb.catalog_eq.trans hb'.catalog_eq.symm, ?_, fun n => (hb.own?_congr hb' hcalls).1,
    fun n => ?_⟩
  · rw [addAll_eq_run, addAll_eq_run, BonusTable.maxDepth_run, BonusTable.maxDepth_run]
  · rw [List.perm_ext_iff_of_nodup ((isOfCatalog_addAll catalog config calls).enhancersOf_nodup n)
      ((isOfCatalog_addAll catalog config calls').enhancersOf_nodup n)]
    exact (hb.own?_congr hb' hcalls).2

/-- Whatever calls add to an empty graph, the graph follows the catalog. -/
theorem addAll_follows_catalog (catalog : BonusCatalog) (config : EngineConfig)
    (calls : List AddCall) : FollowsCatalog catalog config calls where
  isOfCatalog := isOfCatalog_addAll catalog config calls
  standsFor := by
    rw [addAll_eq_run]
    exact BonusTable.standsFor_run (BonusTable.standsFor_empty catalog config) _
  eqUpToOrder _ h := eqUpToOrder_addAll catalog config h

/-- Two bonuses that feed a third one, added to in both orders. -/
theorem addAll_follows_catalog_swapped :
    let catalog : BonusCatalog := .ofList [("Military", { enhances := ["Total"] }),
      ("Naval", { enhances := ["Total"], multipliedBy := some "SHIPS" }), ("Total", {})]
    let landFirst := (empty catalog).addAll [⟨"Military", some 2⟩, ⟨"Naval", some 3⟩]
    let seaFirst := (empty catalog).addAll [⟨"Naval", some 3⟩, ⟨"Military", some 2⟩]
    EqUpToOrder landFirst seaFirst ∧ landFirst.enhancersOf "Total" = ["Military", "Naval"] ∧
      seaFirst.enhancersOf "Total" = ["Naval", "Military"] := by
  refine ⟨(addAll_follows_catalog _ _ _).eqUpToOrder _ fun name => ?_, by decide +kernel,
    by decide +kernel⟩
  by_cases hland : "Military" = name
  · subst hland
    rfl
  · simp [List.filter_cons, hland]

end Order

end BonusGraph

end CharacterSheet
