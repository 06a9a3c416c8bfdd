import CharacterSheet.Proofs.Bonus.Table
import CharacterSheet.Proofs.FirstFailure

/-!
# Queries of a table of bonuses

What is asked of a table is answered as the graph that it stands for answers. The walk looks up each
number that it comes to; there is a row of all of them.

* `BonusTable.enhancersOf_eq` — what feeds a bonus;
* `BonusTable.agrees_walk`, `BonusTable.total_eq` — the walk by numbers is the walk by names;
* `BonusTable.Intact`, `BonusTable.intact_run` — all of this holds however a table was built.
-/

namespace CharacterSheet.BonusTable

variable {t : BonusTable} {g : BonusGraph} {r : BonusRow} {b : Bonus} {name : String} {id : Nat}
  {ids : List Nat} {names : List String}

theorem row_eq (hr : t.rows[id]? = some r) : t.row id = .ok r := by
  rw [row, hr]

/-- Numbers are looked up for their names. -/
theorem Named.mapM_row (h : t.Named ids names) :
    (ids.mapM fun id => return (← t.row id).name) = .ok names := by
  refine mapM_eq_ok_iff.2 (h.imp fun id name hname => ?_)
  obtain ⟨r, hr, rfl⟩ := name?_eq_some_iff.1 hname
  rw [row_eq hr]
  rfl

/-- The row of a name is found, and shows the bonus of the name. -/
theorem exists_rowOf_eq (h : t.StandsFor g) (name : String) :
    ∃ r, t.rowOf name = .ok r ∧ Option.Rel t.Shows r (g.bonus? name) := by
  unfold rowOf
  cases hid : t.index.get? name with
  | none =>
    have hname : g.bonus? name = none := Option.not_isSome_iff_eq_none.1 (h.not_has_iff.2 hid)
    rw [hname]
    exact ⟨none, rfl, .none⟩
  | some id =>
    obtain ⟨r, b, hr, -, hb, hshows⟩ := h.row_of_index hid
    rw [hb]
    dsimp only
    rw [row_eq hr]
    exact ⟨some r, rfl, .some hshows⟩

theorem enhancersOf_eq (h : t.StandsFor g) (name : String) :
    t.enhancersOf name = .ok (g.enhancersOf name) := by
  obtain ⟨r, hr, hshows⟩ := exists_rowOf_eq h name
  unfold enhancersOf BonusGraph.enhancersOf
  rw [hr]
  generalize g.bonus? name = b at hshows ⊢
  cases hshows with
  | none => rfl
  | some hshows => exact hshows.enhancedBy.mapM_row

/-! ### The walk -/

/-- The same totals are known by number as are known by name. -/
def Knows (t : BonusTable) (known : List (Nat × Float)) (known' : NameMap Float) : Prop :=
  ∀ id name, t.name? id = some name → known.lookup id = known'.get? name

/-- A walk by numbers has the result of a walk by names. -/
inductive Agrees (t : BonusTable) : Totalled → BonusGraph.Totalled → Prop
  | ok {total : Float} {known : List (Nat × Float)} {known' : NameMap Float}
    (hknown : t.Knows known known') : Agrees t (.ok (total, known)) (.ok (total, known'))
  | error (error : BonusError) : Agrees t (.error (.refused error)) (.error error)

section Walk

variable {keywords : KeywordCounts} {known : List (Nat × Float)} {known' : NameMap Float}
  {path : List Nat} {path' : List String}

theorem Knows.insert (h : t.Knows known known') (hwf : t.WellFormed) (hid : t.name? id = some name)
    (total : Float) : t.Knows ((id, total) :: known) (known'.insert name total) := by
  intro other name' hother
  rw [NameMap.get?_insert]
  by_cases heq : other = id
  · subst heq
    obtain rfl := Option.some.inj (hid.symm.trans hother)
    rw [List.lookup_cons_self, if_pos rfl]
  · have hne : name' ≠ name := by
      rintro rfl
      exact heq (hwf.name?_inj hother hid)
    rw [List.lookup_cons, beq_false_of_ne heq, if_neg hne]
    exact h other name' hother

theorem Named.takeWhile_ne (h : t.Named ids names) (hwf : t.WellFormed)
    (hid : t.name? id = some name) :
    t.Named (ids.takeWhile (· ≠ id)) (names.takeWhile (· ≠ name)) := by
  induction h with
  | nil => exact .nil
  | @cons other name' _ _ hname _ ih =>
    have hiff := hwf.eq_iff hname hid
    by_cases heq : name' = name
    · rw [List.takeWhile_cons_of_neg (by simpa using hiff.2 heq),
        List.takeWhile_cons_of_neg (by simpa using heq)]
      exact .nil
    · rw [List.takeWhile_cons_of_pos (by simpa using mt hiff.1 heq),
        List.takeWhile_cons_of_pos (by simpa using heq)]
      exact .cons hname ih

/-- The cycle that a path closes is the same by number and by name. -/
theorem Named.cycle (h : t.Named path path') (hwf : t.WellFormed) (hid : t.name? id = some name) :
    t.Named (id :: (path.takeWhile (· ≠ id)).reverse ++ [id]) (BonusGraph.cycle path' name) :=
  .cons hid (List.rel_append (List.forall₂_reverse_iff.2 (h.takeWhile_ne hwf hid))
    (.cons hid .nil))

theorem agrees_sumTotals {f : List (Nat × Float) → Nat → Totalled}
    {f' : NameMap Float → String → BonusGraph.Totalled}
    (hf : ∀ known known' id name, t.Knows known known' → t.name? id = some name →
      t.Agrees (f known id) (f' known' name))
    (hknown : t.Knows known known') (sum : Float) (hnames : t.Named ids names) :
    t.Agrees (sumTotals f known sum ids) (BonusGraph.sumTotals f' known' sum names) := by
  induction hnames generalizing known known' sum with
  | nil => exact .ok hknown
  | @cons id name _ _ hname _ ih =>
    unfold sumTotals BonusGraph.sumTotals
    have hfirst := hf known known' id name hknown hname
    generalize f known id = x at hfirst
    generalize f' known' name = x' at hfirst
    cases hfirst with
    | ok hknown => exact ih hknown _
    | error error => exact .error error

/-- The walk by numbers is the walk by names. -/
theorem agrees_walk (h : t.StandsFor g) (keywords : KeywordCounts) (left : Nat)
    (hpath : t.Named path path') (hknown : t.Knows known known') (hid : t.name? id = some name) :
    t.Agrees (t.walk keywords left path known id) (g.walk keywords left path' known' name) := by
  induction left using Nat.strongRecOn generalizing path path' known known' id name with
  | ind left ih =>
    obtain ⟨r, b, hr, rfl, hb, hshows⟩ := h.row_of_index ((h.index_iff name id).2 hid)
    have hmem := hpath.mem_iff h.toWellFormed hid
    unfold walk BonusGraph.walk
    rw [hb, hknown id r.name hid]
    cases known'.get? r.name with
    | some total => exact .ok hknown
    | none =>
      dsimp only
      by_cases hcycle : r.name ∈ path'
      · rw [if_pos hcycle, if_pos (hmem.2 hcycle), (hpath.cycle h.toWellFormed hid).mapM_row]
        exact .error _
      · rw [if_neg hcycle, if_neg (mt hmem.1 hcycle), row_eq hr]
        cases left with
        | zero =>
          rw [h.maxDepth]
          exact .error _
        | succ left =>
          have hsum := agrees_sumTotals
            (fun known known' id name hknown hid =>
              ih left (Nat.lt_succ_self left) (.cons (name?_of_row hr) hpath) hknown hid)
            hknown (b.modifier.apply b.value keywords) hshows.enhancedBy
          dsimp only [bind, Except.bind]
          rw [hshows.modifier, hshows.value]
          generalize sumTotals _ known _ r.enhancedBy = x at hsum ⊢
          generalize BonusGraph.sumTotals _ known' _ b.enhancedBy = x' at hsum ⊢
          cases hsum with
          | ok hknown => exact .ok (hknown.insert h.toWellFormed hid _)
          | error error => exact .error error

end Walk

theorem total_eq (h : t.StandsFor g) (keywords : KeywordCounts) (name : String) :
    t.total keywords name = (g.total keywords name).mapError .refused := by
  unfold total BonusGraph.total
  cases hid : t.index.get? name with
  | none =>
    have hname : g.bonus? name = none := Option.not_isSome_iff_eq_none.1 (h.not_has_iff.2 hid)
    unfold BonusGraph.walk
    rw [hname]
    rfl
  | some id =>
    have hwalk : t.Agrees (t.walk keywords t.maxDepth [] [] id)
        (g.walk keywords t.maxDepth [] .empty name) :=
      agrees_walk h keywords t.maxDepth .nil (fun _ _ _ => rfl) ((h.index_iff name id).1 hid)
    rw [h.maxDepth]
    dsimp only
    generalize t.walk keywords t.maxDepth [] [] id = x at hwalk ⊢
    generalize g.walk keywords t.maxDepth [] .empty name = x' at hwalk ⊢
    cases hwalk with
    | ok _ => rfl
    | error error => rfl

/-! ### However a table was built -/

/-- A table has no contradictions and is the one of a graph. Later changes only extend it, and
nothing that is done with it looks up a number that has no row. -/
structure Intact (t : BonusTable) (g : BonusGraph) : Prop extends t.StandsFor g where
  extends_run : ∀ later, t.Extends (t.run later)
  changes_in_bounds : ∀ op id t', (Change.ofOperation op).run t ≠ .error (.outOfBounds id) t'
  rowOf_rel : ∀ name, ∃ r, t.rowOf name = .ok r ∧ Option.Rel t.Shows r (g.bonus? name)
  enhancersOf_eq : ∀ name, t.enhancersOf name = .ok (g.enhancersOf name)
  total_eq : ∀ keywords name, t.total keywords name = (g.total keywords name).mapError .refused

theorem StandsFor.changes_in_bounds (h : t.StandsFor g) (op : BonusGraph.Operation) (id : Nat)
    (t' : BonusTable) : (Change.ofOperation op).run t ≠ .error (.outOfBounds id) t' := by
  intro hrun
  have hop := follows_operation h op
  cases hperform : g.perform op with
  | ok next =>
    rw [hperform] at hop
    obtain ⟨_, _, hok, -⟩ := hop
    cases hrun.symm.trans hok
  | error error =>
    rw [hperform] at hop
    cases hrun.symm.trans hop

/-- However a table was built, it is intact and the one of the graph that the same operations
built. -/
theorem intact_run (catalog : BonusCatalog) (config : EngineConfig)
    (ops : List BonusGraph.Operation) :
    ((empty catalog config).run ops).Intact ((BonusGraph.empty catalog config).run ops) :=
  have h := standsFor_run (standsFor_empty catalog config) ops
  { h with
    extends_run := h.extends_run
    changes_in_bounds := h.changes_in_bounds
    rowOf_rel := exists_rowOf_eq h
    enhancersOf_eq := enhancersOf_eq h
    total_eq := total_eq h }

/-- An edge that is listed from both sides, here by one bonus, is there once. -/
example : ((empty (.ofList [("Echo", { enhances := ["Echo"], enhancedBy := some "Echo" })])).run
    [.add "Echo" (some 1), .add "Echo" none]).rows.map (·.enhancedBy) = [[0]] := by
  decide +kernel

end CharacterSheet.BonusTable
