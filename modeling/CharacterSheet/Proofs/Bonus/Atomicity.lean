import CharacterSheet.Proofs.Bonus.CatalogGraph

/-!
# Bonus operations, all or nothing

A change of a table looks at what it is given before it writes its first row, also where it goes on
to write several rows and edges. What is turned down therefore leaves no trace, and the conditions
under which this happens can be told from the catalog and the names that are there.

* `BonusGraph.Operation.Refused` — the reasons for which an operation is turned down, each with the
  error that reports it;
* `BonusGraph.Operation.IsRefused` — the conditions without the order in which they are looked at;
* `BonusGraph.perform_eq_error_iff` — a graph turns down an operation for these reasons;
* `BonusTable.refused_without_trace` — so does a table, which then is as it was.
-/

namespace CharacterSheet

namespace BonusGraph

variable {g : BonusGraph} {catalog : BonusCatalog} {present : String → Prop} {op : Operation}
  {error : BonusError}

namespace Operation

/-- The reasons for which an operation is turned down. Each of them has the conditions that are
looked at before it. -/
inductive Refused (catalog : BonusCatalog) (present : String → Prop) : Operation → BonusError → Prop
  | unknownName {name : String} {value : Option Float} (hname : ¬catalog.contains name) :
    Refused catalog present (.add name value) (.unknownName name)
  /-- Of the bonuses that an entry mentions, the first one that has no entry is reported. -/
  | unknownNeighbour {name missing : String} {value : Option Float} {before after : List String}
    (hname : catalog.contains name)
    (hneighbours : (entry catalog name).neighbours = before ++ missing :: after)
    (hbefore : ∀ n ∈ before, catalog.contains n) (hmissing : ¬catalog.contains missing) :
    Refused catalog present (.add name value) (.unknownName missing)
  | addedNotFinite {name : String} {value : Option Float} (hname : catalog.contains name)
    (hneighbours : ∀ n ∈ (entry catalog name).neighbours, catalog.contains n)
    (hamount : ¬(AddCall.amount catalog ⟨name, value⟩).isFinite) :
    Refused catalog present (.add name value)
      (.invalidValue name (AddCall.amount catalog ⟨name, value⟩))
  | duplicate {name : String} {value : Float} {modifier : BonusModifier} (hname : present name) :
    Refused catalog present (.insert name value modifier) (.duplicate name)
  | insertedNotFinite {name : String} {value : Float} {modifier : BonusModifier}
    (hname : ¬present name) (hvalue : ¬value.isFinite) :
    Refused catalog present (.insert name value modifier) (.invalidValue name value)
  | unknownSource {source target : String} (hsource : ¬present source) :
    Refused catalog present (.link source target) (.unknownName source)
  | unknownTarget {source target : String} (hsource : present source) (htarget : ¬present target) :
    Refused catalog present (.link source target) (.unknownName target)

/-- The conditions under which an operation is turned down. -/
def IsRefused (catalog : BonusCatalog) (present : String → Prop) : Operation → Prop
  | .add name value => ¬catalog.contains name ∨
      (∃ n ∈ (entry catalog name).neighbours, ¬catalog.contains n) ∨
      ¬(AddCall.amount catalog ⟨name, value⟩).isFinite
  | .insert name value _ => present name ∨ ¬value.isFinite
  | .link source target => ¬present source ∨ ¬present target

/-- Where some elements of a list do not have a property, one of them is the first. -/
theorem exists_first_of_exists {l : List String} {p : String → Bool} (h : ∃ n ∈ l, ¬p n) :
    ∃ before missing after, l = before ++ missing :: after ∧ (∀ n ∈ before, p n) ∧ ¬p missing := by
  obtain ⟨missing, hfind⟩ : ∃ missing, l.find? (fun n => !p n) = some missing := by
    rw [← Option.isSome_iff_exists, List.find?_isSome]
    simpa using h
  obtain ⟨hmissing, before, after, rfl, hbefore⟩ := List.find?_eq_some_iff_append.1 hfind
  exact ⟨before, missing, after, rfl, by simpa using hbefore, by simpa using hmissing⟩

/-- Under one of the conditions there is a reason, and every reason is one of the conditions. -/
theorem isRefused_iff :
    op.IsRefused catalog present ↔ ∃ error, op.Refused catalog present error := by
  constructor
  · intro h
    cases op with
    | add name value =>
      by_cases hname : catalog.contains name
      · by_cases hneighbours : ∃ n ∈ (entry catalog name).neighbours, ¬catalog.contains n
        · obtain ⟨before, missing, after, heq, hbefore, hmissing⟩ :=
            exists_first_of_exists hneighbours
          exact ⟨_, .unknownNeighbour hname heq hbefore hmissing⟩
        · have hamount := (h.resolve_left (not_not.2 hname)).resolve_left hneighbours
          push Not at hneighbours
          exact ⟨_, .addedNotFinite hname hneighbours hamount⟩
      · exact ⟨_, .unknownName hname⟩
    | insert name value modifier =>
      by_cases hname : present name
      · exact ⟨_, .duplicate hname⟩
      · exact ⟨_, .insertedNotFinite hname (h.resolve_left hname)⟩
    | link source target =>
      by_cases hsource : present source
      · exact ⟨_, .unknownTarget hsource (h.resolve_left (not_not.2 hsource))⟩
      · exact ⟨_, .unknownSource hsource⟩
  · rintro ⟨error, h⟩
    cases h with
    | unknownName hname => exact .inl hname
    | unknownNeighbour hname hneighbours hbefore hmissing =>
      exact .inr (.inl ⟨_, hneighbours ▸ List.mem_append_right _ List.mem_cons_self, hmissing⟩)
    | addedNotFinite hname hneighbours hamount => exact .inr (.inr hamount)
    | duplicate hname => exact .inl hname
    | insertedNotFinite hname hvalue => exact .inr hvalue
    | unknownSource hsource => exact .inl hsource
    | unknownTarget hsource htarget => exact .inr htarget

end Operation

/-! ### Graphs -/

/-- What adding to a bonus of the catalog looks at, one after the other. -/
theorem perform_add_of_contains {name : String} (hname : g.catalog.contains name)
    (value : Option Float) :
    g.perform (.add name value) =
      match (entry g.catalog name).neighbours.find? fun n => !g.catalog.contains n with
      | some missing => .error (.unknownName missing)
      | none =>
        let amount := AddCall.amount g.catalog ⟨name, value⟩
        if !amount.isFinite then .error (.invalidValue name amount)
        else .ok (g.addTo ⟨name, value⟩) := by
  obtain ⟨metadata, hentry⟩ := Option.isSome_iff_exists.1 hname
  obtain rfl : entry g.catalog name = metadata := by rw [entry, hentry, Option.getD_some]
  rw [perform, add, hentry]
  rfl

/-- For each of the reasons an operation is turned down as the reason says. -/
theorem perform_of_refused (h : op.Refused g.catalog g.Has error) :
    g.perform op = .error error := by
  cases h with
  | @unknownName name value hname =>
    have hentry : g.catalog.get? name = none := by simpa [NameMap.contains] using hname
    rw [perform, add, hentry]
  | @unknownNeighbour name missing value before after hname hneighbours hbefore hmissing =>
    have hfind : (entry g.catalog name).neighbours.find? (fun n => !g.catalog.contains n) =
        some missing :=
      List.find?_eq_some_iff_append.2
        ⟨by simpa using hmissing, before, after, hneighbours, by simpa using hbefore⟩
    rw [perform_add_of_contains hname, hfind]
  | @addedNotFinite name value hname hneighbours hamount =>
    have hfind : (entry g.catalog name).neighbours.find? (fun n => !g.catalog.contains n) = none := by
      simpa using hneighbours
    rw [perform_add_of_contains hname, hfind]
    exact if_pos (by simpa using hamount)
  | duplicate hname =>
    rw [perform, insert, if_pos (contains_iff.2 hname)]
  | insertedNotFinite hname hvalue =>
    rw [perform, insert, if_neg (mt contains_iff.1 hname), if_pos (by simpa using hvalue)]
  | unknownSource hsource =>
    rw [perform, link, if_pos (by simpa using mt contains_iff.1 hsource)]
  | unknownTarget hsource htarget =>
    rw [perform, link, if_neg (by simpa using contains_iff.2 hsource),
      if_pos (by simpa using mt contains_iff.1 htarget)]

/-- Under none of the conditions an operation goes through. -/
theorem perform_of_not_isRefused (h : ¬op.IsRefused g.catalog g.Has) :
    ∃ next, g.perform op = .ok next := by
  cases op with
  | add name value =>
    rw [Operation.IsRefused, not_or, not_or, not_not, not_not] at h
    obtain ⟨hname, hneighbours, hamount⟩ := h
    have haccepted : AddCall.isAccepted g.catalog ⟨name, value⟩ := by
      simpa [AddCall.isAccepted, hname, hamount] using hneighbours
    exact ⟨_, addCall_eq_ok_iff.2 ⟨haccepted, rfl⟩⟩
  | insert name value modifier =>
    obtain ⟨hname, hvalue⟩ := not_or.1 h
    rw [perform, insert, if_neg (mt contains_iff.1 hname), if_neg (by simpa using hvalue)]
    exact ⟨_, rfl⟩
  | link source target =>
    rw [Operation.IsRefused, not_or, not_not, not_not] at h
    rw [perform, link, if_neg (by simpa using contains_iff.2 h.1),
      if_neg (by simpa using contains_iff.2 h.2)]
    exact ⟨_, rfl⟩

theorem perform_eq_error_iff :
    g.perform op = .error error ↔ op.Refused g.catalog g.Has error := by
  refine ⟨fun h => ?_, perform_of_refused⟩
  have hrefused : op.IsRefused g.catalog g.Has := by
    by_contra hnot
    obtain ⟨next, hok⟩ := perform_of_not_isRefused hnot
    cases h.symm.trans hok
  obtain ⟨error', herror'⟩ := Operation.isRefused_iff.1 hrefused
  cases h.symm.trans (perform_of_refused herror')
  exact herror'

end BonusGraph

/-! ### Tables -/

namespace BonusTable

variable {t : BonusTable} {g : BonusGraph} {op : BonusGraph.Operation}

/-- A table has a row of a given name. -/
def HasRow (t : BonusTable) (name : String) : Prop := ∃ r ∈ t.rows, r.name = name

theorem StandsFor.hasRow_eq (h : t.StandsFor g) : t.HasRow = g.Has := by
  ext name
  constructor
  · rintro ⟨r, hr, rfl⟩
    obtain ⟨b, hb, -⟩ := h.shows r hr
    exact BonusGraph.has_iff.2 ⟨b, hb⟩
  · intro hname
    obtain ⟨id, hid⟩ := h.has name hname
    obtain ⟨r, hr, rfl⟩ := name?_eq_some_iff.1 hid
    exact ⟨r, List.mem_of_getElem? hr, rfl⟩

/-- A change that stops has been turned down for one of the reasons, and has not written
anything. -/
theorem StandsFor.run_eq_error_iff (h : t.StandsFor g) {fault : Fault} {next : BonusTable} :
    (Change.ofOperation op).run t = .error fault next ↔
      next = t ∧ ∃ error, fault = .refused error ∧ op.Refused t.catalog t.HasRow error := by
  have hop := follows_operation h op
  rw [h.hasRow_eq, ← h.catalog]
  simp only [← BonusGraph.perform_eq_error_iff]
  cases hperform : g.perform op with
  | ok next =>
    rw [hperform] at hop
    obtain ⟨_, t', hrun, -⟩ := hop
    rw [hrun]
    exact iff_of_false nofun (by rintro ⟨-, error, -, ⟨⟩⟩)
  | error error =>
    rw [hperform] at hop
    rw [show (Change.ofOperation op).run t = _ from hop]
    constructor
    · intro heq
      cases heq
      exact ⟨rfl, error, rfl, rfl⟩
    · rintro ⟨rfl, error', rfl, heq⟩
      cases heq
      rfl

/-- However a table was built, an operation is turned down exactly under its conditions. It is
reported for the reason that comes first, and the table is then as it was: its rows with their
values, modifiers, sources and marks, and its index. -/
theorem refused_without_trace (catalog : BonusCatalog) (config : EngineConfig)
    (ops : List BonusGraph.Operation) (op : BonusGraph.Operation) :
    let t := (empty catalog config).run ops
    ((∃ fault next, (Change.ofOperation op).run t = .error fault next) ↔
      op.IsRefused catalog t.HasRow) ∧
    ∀ fault next, (Change.ofOperation op).run t = .error fault next ↔
      next = t ∧ ∃ error, fault = .refused error ∧ op.Refused catalog t.HasRow error := by
  intro t
  have hgraph : t.StandsFor _ := standsFor_run (standsFor_empty catalog config) ops
  have hcatalog : t.catalog = catalog :=
    ((standsFor_empty catalog config).extends_run ops).catalog
  have hrun (fault : Fault) (next : BonusTable) :
      (Change.ofOperation op).run t = .error fault next ↔
        next = t ∧ ∃ error, fault = .refused error ∧ op.Refused catalog t.HasRow error :=
    hcatalog ▸ hgraph.run_eq_error_iff
  refine ⟨?_, hrun⟩
  rw [BonusGraph.Operation.isRefused_iff]
  constructor
  · rintro ⟨fault, next, h⟩
    obtain ⟨-, error, -, herror⟩ := (hrun fault next).1 h
    exact ⟨error, herror⟩
  · rintro ⟨error, herror⟩
    exact ⟨.refused error, t, (hrun _ _).2 ⟨rfl, error, rfl, herror⟩⟩

end BonusTable

end CharacterSheet
