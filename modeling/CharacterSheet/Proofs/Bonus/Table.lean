import Mathlib.Data.List.Forall2
import Mathlib.Data.List.Nodup
import CharacterSheet.Bonus.Table
import CharacterSheet.Proofs.Bonus.Edges

/-!
# Tables and graphs of bonuses

A table that was built by changes stands for the graph that was built by the same operations. Its
index is exact, all numbers in it are numbers of rows, and bonuses keep their numbers and the edges
that they have.

* `BonusTable.WellFormed`, `BonusTable.StandsFor` — a table without contradictions, and the graph
  that it keeps;
* `BonusTable.Extends` — what stays in a table that is changed;
* `BonusTable.Makes`, `BonusTable.Follows` — a change goes through and leaves the table of a graph,
  or is turned down where the graph turns it down;
* `BonusTable.follows_operation`, `BonusTable.changed_cases` — changes do to tables what operations
  do to graphs.
-/

namespace CharacterSheet

/-- A bonus keeps its name, its modifier and the edges that it has, in their order. -/
structure BonusRow.Grows (r r' : BonusRow) : Prop where
  name : r'.name = r.name
  modifier : r'.modifier = r.modifier
  enhancedBy : r.enhancedBy <+: r'.enhancedBy

namespace BonusTable

/-- The name of a number. -/
def name? (t : BonusTable) (id : Nat) : Option String := t.rows[id]?.map (·.name)

/-- A table without contradictions. -/
structure WellFormed (t : BonusTable) : Prop where
  names_nodup : (t.rows.map (·.name)).Nodup
  /-- The index has the names that are there and no others, each with its number. -/
  index_iff : ∀ name id, t.index.get? name = some id ↔ t.name? id = some name
  sources_lt : ∀ r ∈ t.rows, ∀ source ∈ r.enhancedBy, source < t.rows.length
  sources_nodup : ∀ r ∈ t.rows, r.enhancedBy.Nodup

/-- The names of some numbers, one by one. -/
abbrev Named (t : BonusTable) : List Nat → List String → Prop :=
  List.Forall₂ fun id name => t.name? id = some name

/-- A row is a bonus with numbers in place of the names of its sources. -/
structure Shows (t : BonusTable) (r : BonusRow) (b : Bonus) : Prop where
  value : r.value = b.value
  modifier : r.modifier = b.modifier
  enhancedBy : t.Named r.enhancedBy b.enhancedBy
  isWired : r.isWired = b.isWired

/-- A table without contradictions has the bonuses of a graph and no others. -/
structure StandsFor (t : BonusTable) (g : BonusGraph) : Prop extends t.WellFormed where
  catalog : g.catalog = t.catalog
  maxDepth : g.maxDepth = t.maxDepth
  shows : ∀ r ∈ t.rows, ∃ b, g.bonus? r.name = some b ∧ t.Shows r b
  has : ∀ name, g.Has name → ∃ id, t.name? id = some name

/-- Bonuses keep their numbers and what they have. -/
structure Extends (t t' : BonusTable) : Prop where
  catalog : t'.catalog = t.catalog
  maxDepth : t'.maxDepth = t.maxDepth
  grows : ∀ (id : Nat) (r : BonusRow), t.rows[id]? = some r →
    ∃ r', t'.rows[id]? = some r' ∧ r.Grows r'
  index : ∀ name id, t.index.get? name = some id → t'.index.get? name = some id

variable {t t' t'' : BonusTable} {g next : BonusGraph} {r r' : BonusRow} {b : Bonus}
  {name : String} {id : Nat}

/-! ### Names and numbers -/

theorem name?_eq_some_iff : t.name? id = some name ↔ ∃ r, t.rows[id]? = some r ∧ r.name = name :=
  Option.map_eq_some_iff

theorem name?_of_row (h : t.rows[id]? = some r) : t.name? id = some r.name :=
  name?_eq_some_iff.2 ⟨r, h, rfl⟩

theorem lt_of_name? (h : t.name? id = some name) : id < t.rows.length := by
  obtain ⟨r, hr, -⟩ := name?_eq_some_iff.1 h
  exact (List.getElem?_eq_some_iff.1 hr).1

/-- Where the index has one number for each name, no two bonuses have the same name. -/
theorem names_nodup_of_index
    (h : ∀ name id, t.index.get? name = some id ↔ t.name? id = some name) :
    (t.rows.map (·.name)).Nodup := by
  rw [List.nodup_iff_getElem?_ne_getElem?]
  intro i j hij hj heq
  rw [List.getElem?_map, List.getElem?_map] at heq
  rw [List.length_map] at hj
  have hname : t.name? j = some t.rows[j].name := name?_of_row (List.getElem?_eq_getElem hj)
  have hi := (h _ i).2 (heq.trans hname)
  have hj := (h _ j).2 hname
  rw [hi, Option.some.injEq] at hj
  omega

section Named

variable {ids : List Nat} {names : List String}

theorem Named.lt_length (h : t.Named ids names) : ∀ id ∈ ids, id < t.rows.length := by
  induction h with
  | nil => exact List.forall_mem_nil _
  | cons hname _ ih => exact List.forall_mem_cons.2 ⟨lt_of_name? hname, ih⟩

theorem Named.mono (h : t.Named ids names)
    (hname : ∀ id name, t.name? id = some name → t'.name? id = some name) : t'.Named ids names :=
  h.imp hname

theorem WellFormed.name?_inj (h : t.WellFormed) {other : Nat} (hid : t.name? id = some name)
    (hother : t.name? other = some name) : id = other := by
  rw [← h.index_iff] at hid hother
  exact Option.some.inj (hid.symm.trans hother)

theorem WellFormed.eq_iff (h : t.WellFormed) {other : Nat} {name' : String}
    (hid : t.name? id = some name) (hother : t.name? other = some name') :
    id = other ↔ name = name' := by
  constructor
  · rintro rfl
    exact Option.some.inj (hid.symm.trans hother)
  · rintro rfl
    exact h.name?_inj hid hother

/-- A number is among others where its name is among theirs, since names are distinct. -/
theorem Named.mem_iff (h : t.Named ids names) (hwf : t.WellFormed) (hid : t.name? id = some name) :
    id ∈ ids ↔ name ∈ names := by
  induction h with
  | nil => exact iff_of_false nofun nofun
  | cons hname _ ih => rw [List.mem_cons, List.mem_cons, hwf.eq_iff hid hname, ih]

end Named

/-- What a row shows does not change as long as numbers keep their names. -/
theorem Shows.mono (h : t.Shows r b)
    (hname : ∀ id name, t.name? id = some name → t'.name? id = some name) : t'.Shows r b :=
  ⟨h.value, h.modifier, h.enhancedBy.mono hname, h.isWired⟩

namespace Extends

theorem refl (t : BonusTable) : t.Extends t where
  catalog := rfl
  maxDepth := rfl
  grows _ r hr := ⟨r, hr, rfl, rfl, List.prefix_refl _⟩
  index _ _ h := h

theorem trans (h : t.Extends t') (h' : t'.Extends t'') : t.Extends t'' where
  catalog := h'.catalog.trans h.catalog
  maxDepth := h'.maxDepth.trans h.maxDepth
  grows id r hr := by
    obtain ⟨r', hr', hgrows⟩ := h.grows id r hr
    obtain ⟨r'', hr'', hgrows'⟩ := h'.grows id r' hr'
    exact ⟨r'', hr'', hgrows'.name.trans hgrows.name, hgrows'.modifier.trans hgrows.modifier,
      hgrows.enhancedBy.trans hgrows'.enhancedBy⟩
  index name id hid := h'.index name id (h.index name id hid)

end Extends

namespace StandsFor

theorem row_of_index (h : t.StandsFor g) (hid : t.index.get? name = some id) :
    ∃ r b, t.rows[id]? = some r ∧ r.name = name ∧ g.bonus? name = some b ∧ t.Shows r b := by
  obtain ⟨r, hr, rfl⟩ := name?_eq_some_iff.1 ((h.index_iff name id).1 hid)
  obtain ⟨b, hb, hshows⟩ := h.shows r (List.mem_of_getElem? hr)
  exact ⟨r, b, hr, rfl, hb, hshows⟩

theorem has_iff (h : t.StandsFor g) : g.Has name ↔ ∃ id, t.index.get? name = some id := by
  constructor
  · intro hname
    obtain ⟨id, hid⟩ := h.has name hname
    exact ⟨id, (h.index_iff name id).2 hid⟩
  · rintro ⟨id, hid⟩
    obtain ⟨-, b, -, -, hb, -⟩ := h.row_of_index hid
    exact BonusGraph.has_iff.2 ⟨b, hb⟩

theorem not_has_iff (h : t.StandsFor g) : ¬g.Has name ↔ t.index.get? name = none := by
  rw [h.has_iff, ← Option.isSome_iff_exists, Option.not_isSome_iff_eq_none]

end StandsFor

/-! ### Writing a row -/

/-- The table with a row at the end. -/
def pushed (t : BonusTable) (r : BonusRow) : BonusTable :=
  { t with index := t.index.insert r.name t.rows.length, rows := t.rows ++ [r] }

/-- The table with a row in place of another. -/
def written (t : BonusTable) (id : Nat) (r : BonusRow) : BonusTable :=
  { t with rows := t.rows.set id r }

theorem name?_pushed (h : t.name? id = some name) : (t.pushed r).name? id = some name := by
  rw [name?, pushed, List.getElem?_append_left (lt_of_name? h)]
  exact h

theorem extends_pushed (hnew : t.index.get? r.name = none) : t.Extends (t.pushed r) where
  catalog := rfl
  maxDepth := rfl
  grows id r hr := by
    refine ⟨r, ?_, rfl, rfl, List.prefix_refl _⟩
    rw [pushed, List.getElem?_append_left (List.getElem?_eq_some_iff.1 hr).1]
    exact hr
  index name id hid := by
    have hne : name ≠ r.name := by
      rintro rfl
      rw [hnew] at hid
      cases hid
    rw [pushed, NameMap.get?_insert, if_neg hne]
    exact hid

theorem rows_pushed_cases {r' : BonusRow} (h : (t.pushed r).rows[id]? = some r') :
    t.rows[id]? = some r' ∨ id = t.rows.length ∧ r' = r := by
  rw [pushed, List.getElem?_append] at h
  split at h
  · exact .inl h
  · next hid =>
    rw [List.getElem?_singleton] at h
    split at h
    · exact .inr ⟨by omega, (Option.some.inj h).symm⟩
    · cases h

/-- A new row that shows a new bonus without sources. -/
theorem StandsFor.pushed (h : t.StandsFor g) (hnew : ¬g.Has r.name) (hsources : r.enhancedBy = [])
    (hb : t.Shows r b) :
    (t.pushed r).StandsFor { g with bonuses := g.bonuses.insert r.name b } := by
  have hnone := h.not_has_iff.1 hnew
  have hself : (t.pushed r).name? t.rows.length = some r.name :=
    name?_of_row (List.getElem?_concat_length ..)
  have hindex : ∀ name id,
      (t.pushed r).index.get? name = some id ↔ (t.pushed r).name? id = some name := by
    intro name id
    rw [BonusTable.pushed, NameMap.get?_insert]
    constructor
    · intro hid
      split at hid
      · next hname =>
        cases hid
        rw [hname]
        exact hself
      · exact name?_pushed ((h.index_iff name id).1 hid)
    · intro hid
      obtain ⟨r', hr', rfl⟩ := name?_eq_some_iff.1 hid
      rcases rows_pushed_cases hr' with hr' | ⟨rfl, rfl⟩
      · have hid := (h.index_iff _ id).2 (name?_of_row hr')
        rw [if_neg, hid]
        intro hname
        rw [hname, hnone] at hid
        cases hid
      · rw [if_pos rfl]
  have hshows : ∀ r' ∈ (t.pushed r).rows, ∃ b',
      BonusGraph.bonus? { g with bonuses := g.bonuses.insert r.name b } r'.name = some b' ∧
        (t.pushed r).Shows r' b' := by
    intro r' hr'
    rw [BonusGraph.bonus?_insert]
    rcases List.mem_append.1 hr' with hr' | hr'
    · obtain ⟨b', hb', hshows⟩ := h.shows r' hr'
      refine ⟨b', ?_, hshows.mono fun _ _ => name?_pushed⟩
      rw [if_neg, hb']
      intro hname
      exact hnew (BonusGraph.has_iff.2 ⟨b', hname ▸ hb'⟩)
    · rw [List.mem_singleton.1 hr', if_pos rfl]
      exact ⟨b, rfl, hb.mono fun _ _ => name?_pushed⟩
  refine ⟨⟨names_nodup_of_index hindex, hindex, ?_, ?_⟩, h.catalog, h.maxDepth, hshows, ?_⟩
  · intro r' hr'
    obtain ⟨b', -, hb'⟩ := hshows r' hr'
    exact hb'.enhancedBy.lt_length
  · intro r' hr'
    rcases List.mem_append.1 hr' with hr' | hr'
    · exact h.sources_nodup r' hr'
    · rw [List.mem_singleton.1 hr', hsources]
      exact List.nodup_nil
  · intro name hname
    rcases (BonusGraph.has_insert b).1 hname with rfl | hname
    · exact ⟨_, hself⟩
    · obtain ⟨id, hid⟩ := h.has name hname
      exact ⟨id, name?_pushed hid⟩

theorem name?_written (hr : t.rows[id]? = some r) (hname : r'.name = r.name) (other : Nat) :
    (t.written id r').name? other = t.name? other := by
  rw [name?, written, List.getElem?_set]
  split
  · next h =>
    subst h
    rw [if_pos (List.getElem?_eq_some_iff.1 hr).1, name?, hr, Option.map_some, Option.map_some,
      hname]
  · rfl

theorem extends_written (hr : t.rows[id]? = some r) (hgrows : r.Grows r') :
    t.Extends (t.written id r') where
  catalog := rfl
  maxDepth := rfl
  grows other s hs := by
    by_cases h : id = other
    · subst h
      obtain rfl := Option.some.inj (hr.symm.trans hs)
      exact ⟨r', List.getElem?_set_self (List.getElem?_eq_some_iff.1 hr).1, hgrows⟩
    · refine ⟨s, ?_, rfl, rfl, List.prefix_refl _⟩
      rw [written, List.getElem?_set_ne h]
      exact hs
  index _ _ h := h

/-- A row changed in the way its bonus is changed. -/
theorem StandsFor.written (h : t.StandsFor g) (hr : t.rows[id]? = some r) (hname : r'.name = r.name)
    (hnodup : r'.enhancedBy.Nodup) {f : Bonus → Bonus} (hf : ∀ b, t.Shows r b → t.Shows r' (f b)) :
    (t.written id r').StandsFor (g.adjust r.name f) := by
  have hnames := name?_written hr hname
  have hindex (name : String) (other : Nat) :
      t.index.get? name = some other ↔ (t.written id r').name? other = some name := by
    rw [hnames]
    exact h.index_iff name other
  have hcases : ∀ s ∈ (t.written id r').rows, s = r' ∨ s ∈ t.rows ∧ s.name ≠ r.name := by
    intro s hs
    obtain ⟨other, hother⟩ := List.mem_iff_getElem?.1 hs
    rw [BonusTable.written, List.getElem?_set] at hother
    split at hother
    · exact .inl (by simpa [eq_comm] using (Option.ite_none_right_eq_some.1 hother).2)
    · next hne =>
      refine .inr ⟨List.mem_of_getElem? hother, fun hsame => hne ?_⟩
      exact h.name?_inj (name?_of_row hr) (hsame ▸ name?_of_row hother)
  have hshows : ∀ s ∈ (t.written id r').rows, ∃ b,
      (g.adjust r.name f).bonus? s.name = some b ∧ (t.written id r').Shows s b := by
    intro s hs
    rw [BonusGraph.bonus?_adjust]
    rcases hcases s hs with rfl | ⟨hs, hne⟩
    · obtain ⟨b, hb, hshows⟩ := h.shows r (List.mem_of_getElem? hr)
      rw [if_pos hname, hb]
      exact ⟨f b, rfl, (hf b hshows).mono fun other _ hother => (hnames other).trans hother⟩
    · obtain ⟨b, hb, hshows⟩ := h.shows s hs
      rw [if_neg hne]
      exact ⟨b, hb, hshows.mono fun other _ hother => (hnames other).trans hother⟩
  refine ⟨⟨names_nodup_of_index hindex, hindex, ?_, ?_⟩, h.catalog, h.maxDepth, hshows, ?_⟩
  · intro s hs
    obtain ⟨b, -, hb⟩ := hshows s hs
    exact hb.enhancedBy.lt_length
  · intro s hs
    rcases hcases s hs with rfl | ⟨hs, -⟩
    · exact hnodup
    · exact h.sources_nodup s hs
  · intro name hhas
    obtain ⟨other, hother⟩ := h.has name ((BonusGraph.has_adjust f).1 hhas)
    exact ⟨other, (hnames other).trans hother⟩

/-! ### Changes that go through -/

/-- A change goes through, its answer has a property together with the table that it leaves, and
that table stands for a graph. -/
def Makes {α : Type} (t : BonusTable) (x : Change α) (g : BonusGraph)
    (P : α → BonusTable → Prop) : Prop :=
  ∃ a t', x.run t = .ok a t' ∧ t.Extends t' ∧ t'.StandsFor g ∧ P a t'

section Makes

variable {α β : Type} {x : Change α} {P : α → BonusTable → Prop} {Q : β → BonusTable → Prop}
  {target source : String} {targetId sourceId : Nat}

theorem makes_pure (h : t.StandsFor g) {a : α} (ha : P a t) : t.Makes (pure a) g P :=
  ⟨a, t, rfl, .refl t, h, ha⟩

theorem Makes.bind {f : α → Change β} (hx : t.Makes x g P)
    (hf : ∀ a t', t.Extends t' → t'.StandsFor g → P a t' → t'.Makes (f a) next Q) :
    t.Makes (x >>= f) next Q := by
  obtain ⟨a, t', hrun, hext, hg, ha⟩ := hx
  obtain ⟨c, t'', hrun', hext', hnext, hc⟩ := hf a t' hext hg ha
  refine ⟨c, t'', ?_, hext.trans hext', hnext, hc⟩
  rw [EStateM.run_bind, hrun]
  exact hrun'

/-- What only reads goes on with the table as it is. -/
theorem makes_bind_of_run {a : α} (hx : x.run t = .ok a t) {f : α → Change β} :
    t.Makes (x >>= f) g Q ↔ t.Makes (f a) g Q := by
  unfold Makes
  rw [EStateM.run_bind, hx]

theorem makes_get_bind {f : BonusTable → Change β} :
    t.Makes (get >>= f) g Q ↔ t.Makes (f t) g Q := Iff.rfl

theorem run_get_bind {f : BonusTable → Change β} : (get >>= f).run t = (f t).run t := rfl

theorem run_row (hr : t.rows[id]? = some r) : (Change.row id).run t = .ok r t := by
  unfold Change.row
  rw [EStateM.run_bind, EStateM.run_get]
  dsimp only
  rw [hr]
  rfl

/-- A row is changed as its bonus is, and keeps what it has. -/
theorem makes_modifyRow (h : t.StandsFor g) (hid : t.index.get? name = some id)
    {f : BonusRow → BonusRow} {f' : Bonus → Bonus}
    (hf : ∀ r b, r.enhancedBy.Nodup → t.Shows r b →
      r.Grows (f r) ∧ (f r).enhancedBy.Nodup ∧ t.Shows (f r) (f' b)) :
    t.Makes (Change.modifyRow id f) (g.adjust name f') fun _ _ => True := by
  obtain ⟨r, b, hr, rfl, hb, hshows⟩ := h.row_of_index hid
  have hnodup := h.sources_nodup r (List.mem_of_getElem? hr)
  obtain ⟨hgrows, hnodup', -⟩ := hf r b hnodup hshows
  unfold Change.modifyRow
  rw [makes_bind_of_run (run_row hr)]
  exact ⟨(), t.written id (f r), rfl, extends_written hr hgrows,
    h.written hr hgrows.name hnodup' fun b hshows => (hf r b hnodup hshows).2.2, trivial⟩

theorem makes_push (h : t.StandsFor g) (hnew : ¬g.Has name) (value : Float)
    (modifier : BonusModifier) :
    t.Makes (Change.push name value modifier)
      { g with bonuses := g.bonuses.insert name { value, modifier } }
      fun id t' => t'.index.get? name = some id :=
  ⟨t.rows.length, t.pushed { name, value, modifier }, rfl,
    extends_pushed (h.not_has_iff.1 hnew), h.pushed hnew rfl ⟨rfl, rfl, .nil, rfl⟩,
    NameMap.get?_insert_self ..⟩

theorem makes_ensure (h : t.StandsFor g) (name : String) :
    t.Makes (Change.ensure name) (g.ensure name) fun id t' => t'.index.get? name = some id := by
  unfold Change.ensure BonusGraph.ensure
  rw [makes_get_bind]
  cases hid : t.index.get? name with
  | some id =>
    have hname : g.bonuses.contains name := BonusGraph.contains_iff.2 (h.has_iff.2 ⟨id, hid⟩)
    rw [if_pos hname]
    exact makes_pure h hid
  | none =>
    have hname : ¬g.Has name := h.not_has_iff.2 hid
    rw [if_neg (mt BonusGraph.contains_iff.1 hname), ← h.catalog]
    exact makes_push h hname 0 _

/-- A row gets the number of a source where the bonus gets its name. -/
theorem Shows.addSource (h : t.Shows r b) (hwf : t.WellFormed)
    (hsource : t.index.get? source = some sourceId) :
    t.Shows (r.addSource sourceId) (b.addSource source) := by
  have hname := (hwf.index_iff source sourceId).1 hsource
  have hmem := h.enhancedBy.mem_iff hwf hname
  unfold BonusRow.addSource Bonus.addSource
  by_cases hnew : sourceId ∈ r.enhancedBy
  · rw [if_pos hnew, if_pos (hmem.1 hnew)]
    exact h
  · rw [if_neg hnew, if_neg (mt hmem.2 hnew)]
    exact ⟨h.value, h.modifier, List.rel_append h.enhancedBy (.cons hname .nil), h.isWired⟩

theorem grows_addSource (r : BonusRow) (source : Nat) : r.Grows (r.addSource source) := by
  unfold BonusRow.addSource
  split
  · exact ⟨rfl, rfl, List.prefix_refl _⟩
  · exact ⟨rfl, rfl, List.prefix_append _ _⟩

theorem nodup_addSource (h : r.enhancedBy.Nodup) (source : Nat) :
    (r.addSource source).enhancedBy.Nodup := by
  unfold BonusRow.addSource
  split
  · exact h
  · next hnew => exact List.concat_eq_append ▸ h.concat hnew

theorem makes_addEdge (h : t.StandsFor g) (hsource : t.index.get? source = some sourceId)
    (htarget : t.index.get? target = some targetId) :
    t.Makes (Change.addEdge sourceId targetId) (g.addEdge source target) fun _ _ => True :=
  makes_modifyRow h htarget fun r _ hnodup hshows =>
    ⟨grows_addSource r sourceId, nodup_addSource hnodup sourceId,
      hshows.addSource h.toWellFormed hsource⟩

/-- Changes in a row do what is done in a row, as long as each does it in every table to come. -/
theorem makes_forM (h : t.StandsFor g) {f : String → Change Unit}
    {f' : BonusGraph → String → BonusGraph}
    (hf : ∀ t' g' name, t.Extends t' → t'.StandsFor g' →
      t'.Makes (f name) (f' g' name) fun _ _ => True) (names : List String) :
    t.Makes (names.forM f) (names.foldl f' g) fun _ _ => True := by
  induction names generalizing t g with
  | nil => exact makes_pure h trivial
  | cons name names ih =>
    refine Makes.bind (hf t g name (.refl t) h) fun _ t' hext h' _ => ?_
    exact ih h' fun t'' g'' other hext' => hf t'' g'' other (hext.trans hext')

theorem makes_feedAll (h : t.StandsFor g) (hid : t.index.get? name = some id)
    (targets : List String) :
    t.Makes (targets.forM fun target => do Change.addEdge id (← Change.ensure target))
      (g.feedAll name targets) fun _ _ => True := by
  refine makes_forM h (fun t' g' target hext h' => ?_) targets
  refine (makes_ensure h' target).bind fun targetId t'' hext' h'' htarget => ?_
  exact makes_addEdge h'' (hext'.index _ _ (hext.index _ _ hid)) htarget

theorem makes_feedFrom (h : t.StandsFor g) (hid : t.index.get? name = some id)
    (sources : List String) :
    t.Makes (sources.forM fun source => do Change.addEdge (← Change.ensure source) id)
      (g.feedFrom name sources) fun _ _ => True := by
  refine makes_forM h (fun t' g' source hext h' => ?_) sources
  refine (makes_ensure h' source).bind fun sourceId t'' hext' h'' hsource => ?_
  exact makes_addEdge h'' hsource (hext'.index _ _ (hext.index _ _ hid))

theorem makes_setWired (h : t.StandsFor g) (hid : t.index.get? name = some id) :
    t.Makes (Change.modifyRow id fun r => { r with isWired := true })
      (g.adjust name fun b => { b with isWired := true }) fun _ _ => True := by
  refine makes_modifyRow h hid fun r b hnodup hshows => ?_
  exact ⟨⟨rfl, rfl, List.prefix_refl _⟩, hnodup,
    hshows.value, hshows.modifier, hshows.enhancedBy, rfl⟩

theorem makes_wire (h : t.StandsFor g) (hid : t.index.get? name = some id)
    {metadata : BonusMetadata} (hmetadata : t.catalog.get? name = some metadata) :
    t.Makes (Change.wire id name) (g.wire name metadata) fun _ _ => True := by
  unfold Change.wire
  rw [makes_get_bind, hmetadata, BonusGraph.wire_eq]
  refine (makes_feedAll h hid metadata.enhances).bind fun _ t₁ hext₁ h₁ _ => ?_
  replace hid := hext₁.index _ _ hid
  refine (makes_feedFrom h₁ hid metadata.enhancedBy.toList).bind fun _ t₂ hext₂ h₂ _ => ?_
  exact makes_setWired h₂ (hext₂.index _ _ hid)

end Makes

/-! ### Operations -/

/-- A bonus has a value of its own. -/
def HasValue (t : BonusTable) (name : String) (value : Float) : Prop :=
  ∃ id r, t.index.get? name = some id ∧ t.rows[id]? = some r ∧ r.value = value

theorem makes_value (h : t.StandsFor g) (hid : t.index.get? name = some id) :
    t.Makes (return (← Change.row id).value) g fun v t' => t'.HasValue name v := by
  obtain ⟨r, -, hr, -⟩ := h.row_of_index hid
  rw [makes_bind_of_run (run_row hr)]
  exact makes_pure h ⟨id, r, hid, hr, rfl⟩

theorem makes_raise (h : t.StandsFor g) {metadata : BonusMetadata}
    (hmetadata : t.catalog.get? name = some metadata) (amount : Float) :
    t.Makes (Change.raise name amount)
      (let raised := (g.ensure name).adjust name fun b => { b with value := b.value + amount }
      match raised.bonus? name with
      | some b => if b.isWired then raised else raised.wire name metadata
      | none => raised)
      fun v t' => t'.HasValue name v := by
  unfold Change.raise
  dsimp only
  refine (makes_ensure h name).bind fun id t₁ hext₁ h₁ hid => ?_
  have hmodify : t₁.Makes (Change.modifyRow id fun r => { r with value := r.value + amount })
      ((g.ensure name).adjust name fun b => { b with value := b.value + amount })
      fun _ _ => True := by
    refine makes_modifyRow h₁ hid fun r b hnodup hshows => ?_
    exact ⟨⟨rfl, rfl, List.prefix_refl _⟩, hnodup,
      congrArg (· + amount) hshows.value, hshows.modifier, hshows.enhancedBy, hshows.isWired⟩
  refine hmodify.bind fun _ t₂ hext₂ h₂ _ => ?_
  replace hid := hext₂.index _ _ hid
  obtain ⟨r, b, hr, -, hb, hshows⟩ := h₂.row_of_index hid
  rw [makes_bind_of_run (run_row hr), hb]
  dsimp only
  rw [hshows.isWired]
  split
  · exact makes_value h₂ hid
  · rw [← hext₁.catalog, ← hext₂.catalog] at hmetadata
    refine (makes_wire h₂ hid hmetadata).bind fun _ t₃ hext₃ h₃ _ => ?_
    exact makes_value h₃ (hext₃.index _ _ hid)

/-- A change does to a table what is done to the graph that it stands for, and is turned down
without a trace where that is turned down. -/
def Follows {α : Type} (t : BonusTable) (x : Change α) (P : α → BonusTable → Prop) :
    Except BonusError BonusGraph → Prop
  | .ok g => t.Makes x g P
  | .error error => x.run t = .error (.refused error) t

theorem follows_add (h : t.StandsFor g) (name : String) (value : Option Float) :
    t.Follows (Change.add name value) (fun v t' => t'.HasValue name v) (g.add name value) := by
  unfold BonusGraph.add Change.add
  rw [h.catalog]
  cases hmetadata : t.catalog.get? name with
  | none =>
    show EStateM.run _ t = _
    simp only [run_get_bind, hmetadata]
    rfl
  | some metadata =>
    dsimp only
    cases hmissing : metadata.neighbours.find? fun n => !t.catalog.contains n with
    | some missing =>
      show EStateM.run _ t = _
      simp only [run_get_bind, hmetadata, hmissing]
      rfl
    | none =>
      dsimp only
      cases hfinite : ((value.or metadata.value).getD 0).isFinite with
      | false =>
        show EStateM.run _ t = _
        simp only [run_get_bind, hmetadata, hmissing, hfinite]
        rfl
      | true =>
        show t.Makes _ _ _
        simp only [makes_get_bind, hmetadata, hmissing, hfinite]
        exact makes_raise h hmetadata _

theorem adjust_insert (g : BonusGraph) (name : String) (b : Bonus) (f : Bonus → Bonus) :
    BonusGraph.adjust { g with bonuses := g.bonuses.insert name b } name f =
      { g with bonuses := g.bonuses.insert name (f b) } := by
  unfold BonusGraph.adjust
  congr 1
  ext other : 1
  rw [NameMap.get?_adjust, NameMap.get?_insert_self, NameMap.get?_insert, NameMap.get?_insert]
  split <;> rfl

theorem follows_insert (h : t.StandsFor g) (name : String) (value : Float)
    (modifier : BonusModifier) :
    t.Follows (Change.insert name value modifier) (fun id t' => t'.index.get? name = some id)
      (g.insert name value modifier) := by
  unfold BonusGraph.insert Change.insert
  by_cases hhas : g.Has name
  · have hindex : t.index.contains name := Option.isSome_iff_exists.2 (h.has_iff.1 hhas)
    rw [if_pos (BonusGraph.contains_iff.2 hhas)]
    show EStateM.run _ t = _
    rw [run_get_bind, if_pos hindex]
    rfl
  · have hindex : ¬t.index.contains name := mt Option.isSome_iff_exists.1 (mt h.has_iff.2 hhas)
    rw [if_neg (mt BonusGraph.contains_iff.1 hhas)]
    cases hfinite : value.isFinite with
    | false =>
      show EStateM.run _ t = _
      rw [run_get_bind, if_neg hindex]
      rfl
    | true =>
      show t.Makes _ _ _
      rw [makes_get_bind, if_neg hindex, if_pos rfl]
      refine (makes_push h hhas value modifier).bind fun id t₁ hext h₁ hid => ?_
      rw [← adjust_insert g name { value, modifier } fun b => { b with isWired := true }]
      refine (makes_setWired h₁ hid).bind fun _ t₂ hext₂ h₂ _ => ?_
      exact makes_pure h₂ (hext₂.index _ _ hid)

theorem run_number (hid : t.index.get? name = some id) :
    (Change.number name).run t = .ok id t := by
  unfold Change.number
  rw [run_get_bind, hid]
  rfl

theorem run_number_of_none (hid : t.index.get? name = none) :
    (Change.number name).run t = .error (.refused (.unknownName name)) t := by
  unfold Change.number
  rw [run_get_bind, hid]
  rfl

theorem follows_link (h : t.StandsFor g) (source target : String) :
    t.Follows (Change.link source target) (fun _ _ => True) (g.link source target) := by
  have hcontains (name : String) : g.bonuses.contains name ↔ ∃ id, t.index.get? name = some id :=
    BonusGraph.contains_iff.trans h.has_iff
  unfold BonusGraph.link Change.link
  cases hsource : t.index.get? source with
  | none =>
    have hnot : (!g.bonuses.contains source) = true := by simpa [hsource] using hcontains source
    rw [if_pos hnot]
    show EStateM.run _ t = _
    rw [EStateM.run_bind, run_number_of_none hsource]
  | some sourceId =>
    have hhas : ¬(!g.bonuses.contains source) = true := by simpa [hsource] using hcontains source
    rw [if_neg hhas]
    cases htarget : t.index.get? target with
    | none =>
      have hnot : (!g.bonuses.contains target) = true := by simpa [htarget] using hcontains target
      rw [if_pos hnot]
      show EStateM.run _ t = _
      rw [EStateM.run_bind, run_number hsource]
      dsimp only
      rw [EStateM.run_bind, run_number_of_none htarget]
    | some targetId =>
      have hhas : ¬(!g.bonuses.contains target) = true := by
        simpa [htarget] using hcontains target
      rw [if_neg hhas]
      show t.Makes _ _ _
      rw [makes_bind_of_run (run_number hsource), makes_bind_of_run (run_number htarget)]
      exact makes_addEdge h hsource htarget

/-- Without its answer, a change does what it does with it. -/
theorem Follows.discard {α : Type} {x : Change α} {P : α → BonusTable → Prop}
    {result : Except BonusError BonusGraph} (h : t.Follows x P result) :
    t.Follows (discard x) (fun _ _ => True) result := by
  have hrun : (Functor.discard x).run t = match x.run t with
      | .ok _ t' => .ok () t'
      | .error fault t' => .error fault t' := by
    show EStateM.map _ x t = _
    unfold EStateM.map EStateM.run
    cases x t <;> rfl
  cases result with
  | ok g =>
    obtain ⟨a, t', hx, hext, hg, -⟩ := h
    exact ⟨(), t', by rw [hrun, hx], hext, hg, trivial⟩
  | error error =>
    show EStateM.run _ t = _
    rw [hrun, show x.run t = _ from h]

/-- Changes do to tables what operations do to graphs. -/
theorem follows_operation (h : t.StandsFor g) (op : BonusGraph.Operation) :
    t.Follows (Change.ofOperation op) (fun _ _ => True) (g.perform op) := by
  cases op with
  | add name value => exact (follows_add h name value).discard
  | insert name value modifier => exact (follows_insert h name value modifier).discard
  | link source target => exact follows_link h source target

/-- An operation extends a table, whether it is accepted or turned down. -/
theorem changed_cases (h : t.StandsFor g) (op : BonusGraph.Operation) :
    t.Extends (t.changed op) ∧ (t.changed op).StandsFor (History.step BonusGraph.perform g op) := by
  have hop := follows_operation h op
  unfold changed History.step
  cases hperform : g.perform op with
  | ok next =>
    rw [hperform] at hop
    obtain ⟨a, t', hrun, hext, hnext, -⟩ := hop
    rw [hrun]
    exact ⟨hext, hnext⟩
  | error error =>
    rw [hperform] at hop
    rw [show (Change.ofOperation op).run t = _ from hop]
    exact ⟨.refl t, h⟩

theorem standsFor_empty (catalog : BonusCatalog) (config : EngineConfig) :
    (empty catalog config).StandsFor (.empty catalog config) where
  names_nodup := .nil
  index_iff _ _ := iff_of_false nofun nofun
  sources_lt := nofun
  sources_nodup := nofun
  catalog := rfl
  maxDepth := rfl
  shows := nofun
  has := nofun

theorem standsFor_run (h : t.StandsFor g) (ops : List BonusGraph.Operation) :
    (t.run ops).StandsFor (g.run ops) := by
  induction ops generalizing t g with
  | nil => exact h
  | cons op ops ih => exact ih (changed_cases h op).2

theorem StandsFor.extends_run (h : t.StandsFor g) (later : List BonusGraph.Operation) :
    t.Extends (t.run later) := by
  induction later generalizing t g with
  | nil => exact .refl t
  | cons op later ih =>
    obtain ⟨hext, hop⟩ := changed_cases h op
    exact hext.trans (ih hop)

theorem Named.nodup {ids : List Nat} {names : List String} (h : t.Named ids names)
    (hwf : t.WellFormed) (hnodup : ids.Nodup) : names.Nodup := by
  induction h with
  | nil => exact .nil
  | cons hname hnames ih =>
    obtain ⟨hnew, hnodup⟩ := List.nodup_cons.1 hnodup
    exact List.nodup_cons.2 ⟨mt (Named.mem_iff hnames hwf hname).2 hnew, ih hnodup⟩

/-- What feeds a bonus feeds it once, however a graph was built. -/
theorem nodup_enhancersOf_run (catalog : BonusCatalog) (config : EngineConfig)
    (ops : List BonusGraph.Operation) (name : String) :
    (((BonusGraph.empty catalog config).run ops).enhancersOf name).Nodup := by
  have h := standsFor_run (standsFor_empty catalog config) ops
  unfold BonusGraph.enhancersOf
  cases hb : ((BonusGraph.empty catalog config).run ops).bonus? name with
  | none => exact .nil
  | some b =>
    obtain ⟨id, hid⟩ := h.has_iff.1 (BonusGraph.has_iff.2 ⟨b, hb⟩)
    obtain ⟨r, b', hr, -, hb', hshows⟩ := h.row_of_index hid
    obtain rfl := Option.some.inj (hb.symm.trans hb')
    exact hshows.enhancedBy.nodup h.toWellFormed (h.sources_nodup r (List.mem_of_getElem? hr))

theorem maxDepth_run (catalog : BonusCatalog) (config : EngineConfig)
    (ops : List BonusGraph.Operation) :
    ((BonusGraph.empty catalog config).run ops).maxDepth = config.maxBonusDepth :=
  have h := standsFor_empty catalog config
  (standsFor_run h ops).maxDepth.trans (h.extends_run ops).maxDepth

end BonusTable

end CharacterSheet
