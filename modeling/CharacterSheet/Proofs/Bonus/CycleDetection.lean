import Mathlib.Data.List.Chain
import Mathlib.Data.List.Perm.Subperm
import CharacterSheet.Proofs.Bonus.PlainTotal

/-!
# Cycles are found, and the walk ends

The walk goes along the edges and stops where it would meet a bonus of its own path again, so its
path never repeats a bonus. A path that closes is therefore a cycle, and no path is longer than
there are bonuses: the walk ends on its own, and the limit on its length only cuts it short.

* `BonusGraph.Trail`, `BonusGraph.IsCycleFrom` — the path of a walk, and a cycle that is reached;
* `BonusGraph.isCycleFrom_of_mem` — what is reported as a cycle is one;
* `BonusGraph.walk_error` — the errors of the walk;
* `BonusGraph.unlimitedWalk`, `BonusGraph.walk_eq_unlimitedWalk_or` — the walk without a limit, from
  which a walk under a limit differs only where it fails because of the limit;
* `BonusGraph.total_detects_cycles` — totals fail exactly as cycles and the limit have it.
-/

namespace CharacterSheet.BonusGraph

open Relation

variable {g : BonusGraph} {keywords : KeywordCounts} {root name : String} {path : List String}

/-- From one bonus along the edges, a path has been taken to another without meeting a bonus twice.
On the path the last bonus comes first. -/
structure Trail (g : BonusGraph) (root : String) (path : List String) (name : String) : Prop where
  /-- Each bonus feeds the one that was met before it. -/
  fed : (name :: path).IsChain (flip g.FedBy)
  nodup : path.Nodup
  reached : ∀ x ∈ name :: path, ReflTransGen g.FedBy root x
  has : ∀ x ∈ path, g.Has x

/-- A list of bonuses is a cycle that is reached from a bonus. -/
structure IsCycleFrom (g : BonusGraph) (root : String) (path : List String) : Prop where
  two_le_length : 2 ≤ path.length
  head?_eq_getLast? : path.head? = path.getLast?
  nodup_dropLast : path.dropLast.Nodup
  /-- Each bonus is fed by the next one. -/
  fed : path.IsChain g.FedBy
  reached : ∀ name ∈ path, ReflTransGen g.FedBy root name

theorem trail_nil (root : String) : g.Trail root [] root where
  fed := .singleton root
  nodup := .nil
  reached := by
    intro x hx
    rw [List.mem_singleton.1 hx]
  has := by simp

theorem Trail.cons {source : String} (h : g.Trail root path name) (hpath : name ∉ path)
    (hedge : g.FedBy name source) : g.Trail root (name :: path) source where
  fed := .cons_cons hedge h.fed
  nodup := List.nodup_cons.2 ⟨hpath, h.nodup⟩
  reached := by
    refine List.forall_mem_cons.2 ⟨?_, h.reached⟩
    exact (h.reached name List.mem_cons_self).tail hedge
  has := List.forall_mem_cons.2 ⟨hedge.has, h.has⟩

theorem exists_cycle_eq (hmem : name ∈ path) : ∃ before after,
    path = before ++ name :: after ∧ name ∉ before ∧
      cycle path name = name :: before.reverse ++ [name] := by
  obtain ⟨before, after, rfl, hbefore⟩ := List.eq_append_cons_of_mem hmem
  refine ⟨before, after, rfl, hbefore, ?_⟩
  have htake : (before ++ name :: after).takeWhile (· ≠ name) = before := by
    rw [List.takeWhile_append_of_pos, List.takeWhile_cons_of_neg (by simp), List.append_nil]
    intro x hx
    exact decide_eq_true fun h => hbefore (h ▸ hx)
  rw [cycle, htake]

/-- The walk reports the part of its path that closes as a cycle. -/
theorem isCycleFrom_of_mem (h : g.Trail root path name) (hmem : name ∈ path) :
    g.IsCycleFrom root (cycle path name) := by
  -- the path is in the order of the walk backwards, and only its front up to `name` closes
  obtain ⟨before, after, rfl, hbefore, hcycle⟩ := exists_cycle_eq hmem
  rw [hcycle]
  have hreverse : name :: before.reverse ++ [name] = (name :: before ++ [name]).reverse := by simp
  refine ⟨by simp, by rw [List.getLast?_concat]; rfl, ?_, ?_, ?_⟩
  · rw [List.dropLast_concat, List.nodup_cons, List.mem_reverse]
    exact ⟨hbefore, List.pairwise_reverse.2 ((List.nodup_append.1 h.nodup).1.imp Ne.symm)⟩
  · rw [hreverse, List.isChain_reverse]
    have hprefix : name :: before ++ [name] <+: name :: (before ++ name :: after) :=
      ⟨after, by simp⟩
    exact h.fed.prefix hprefix
  · intro x hx
    refine h.reached x ?_
    simp only [List.cons_append, List.mem_cons, List.mem_append, List.mem_reverse,
      List.not_mem_nil, or_false] at hx ⊢
    tauto

theorem IsCycleFrom.reachesCycle (h : g.IsCycleFrom root path) : g.ReachesCycle root := by
  obtain ⟨hlength, hends, -, hfed, hreached⟩ := h
  match path with
  | first :: second :: rest =>
    refine ⟨first, hreached first List.mem_cons_self, ?_⟩
    obtain ⟨hstep, hchain⟩ := List.isChain_cons_cons.1 hfed
    have hlast : (second :: rest).getLast (List.cons_ne_nil second rest) = first := by
      rw [List.head?_cons, List.getLast?_cons_cons,
        List.getLast?_eq_some_getLast (List.cons_ne_nil second rest)] at hends
      exact (Option.some.inj hends).symm
    exact .head' hstep (List.relationReflTransGen_of_exists_isChain_cons rest hchain hlast)

/-! ### The errors of the walk -/

theorem mem_names (hname : g.Has name) : name ∈ g.names := by
  obtain ⟨bonus, hbonus⟩ := has_iff.1 hname
  exact NameMap.mem_names_of_get? hbonus

/-- A path that goes on to another bonus is shorter than there are bonuses. -/
theorem Trail.length_lt (h : g.Trail root path name) (hname : g.Has name) (hpath : name ∉ path) :
    path.length < g.names.length := by
  have hnodup : (name :: path).Nodup := List.nodup_cons.2 ⟨hpath, h.nodup⟩
  have hsubset : name :: path ⊆ g.names :=
    List.forall_mem_cons.2 ⟨mem_names hname, fun x hx => mem_names (h.has x hx)⟩
  exact (hnodup.subperm hsubset).length_le

section Walk

variable {left : Nat} {known : NameMap Float} {error : BonusError}

theorem exists_of_sumTotals_eq_error {total : NameMap Float → String → Totalled}
    {sources : List String} {sum : Float}
    (h : sumTotals total known sum sources = .error error) :
    ∃ source ∈ sources, ∃ known, total known source = .error error := by
  induction sources generalizing known sum with
  | nil => cases h
  | cons source rest ih =>
    rcases bind_eq_error.1 h with h | ⟨⟨t, known₁⟩, -, h⟩
    · exact ⟨source, List.mem_cons_self, known, h⟩
    · obtain ⟨source', hsource', hknown⟩ := ih h
      exact ⟨source', List.mem_cons_of_mem source hsource', hknown⟩

/-- The walk fails with a cycle that it has reached, or because its path is as long as allowed,
which is less than there are bonuses. -/
theorem walk_error (hclosed : g.Closed) (hname : g.Has name) (htrail : g.Trail root path name)
    (hleft : path.length + left = g.maxDepth)
    (h : g.walk keywords left path known name = .error error) :
    (∃ cycle, error = .cycleDetected cycle ∧ g.IsCycleFrom root cycle) ∨
      ∃ last, error = .depthExceeded last g.maxDepth ∧ g.maxDepth < g.names.length := by
  induction left using Nat.strongRecOn generalizing path known name with
  | ind left ih =>
    obtain ⟨bonus, hbonus⟩ := has_iff.1 hname
    obtain ⟨t, -, hwalk⟩ | ⟨-, hmem, hwalk⟩ | ⟨-, hpath, hzero, hwalk⟩ |
      ⟨-, hpath, left', rfl, hwalk⟩ := walk_cases keywords hbonus left path known
    · cases h.symm.trans hwalk
    · cases h.symm.trans hwalk
      exact .inl ⟨_, rfl, isCycleFrom_of_mem htrail hmem⟩
    · cases h.symm.trans hwalk
      rw [hzero, Nat.add_zero] at hleft
      exact .inr ⟨_, rfl, hleft ▸ htrail.length_lt hname hpath⟩
    · -- the error is that of the walk from a source, one edge further and with one step less
      obtain ⟨source, hsource, known', h⟩ :=
        exists_of_sumTotals_eq_error (map_eq_error.1 (hwalk.symm.trans h))
      have hedge : g.FedBy name source := fedBy_iff.2 ⟨bonus, hbonus, hsource⟩
      exact ih left' (Nat.lt_succ_self left') (hclosed name source hedge)
        (htrail.cons hpath hedge) (by rw [List.length_cons]; omega) h

end Walk

/-! ### The walk without a limit -/

/-- The bonuses that a path has not met yet. -/
def unmet (g : BonusGraph) (path : List String) : List String := g.names.filter (· ∉ path)

theorem length_unmet_lt (hname : g.Has name) (hpath : name ∉ path) :
    (g.unmet (name :: path)).length < (g.unmet path).length := by
  have hfilter : g.unmet (name :: path) = (g.unmet path).filter (· ≠ name) := by
    rw [unmet, unmet, List.filter_filter]
    refine List.filter_congr fun x _ => ?_
    simp [not_or]
  rw [hfilter]
  refine List.length_filter_lt_length_iff_exists.2 ⟨name, ?_, by simp⟩
  exact List.mem_filter.2 ⟨mem_names hname, by simpa using hpath⟩

/-- The walk without a limit on its length. Each bonus that it goes on to is met for the first time
on its path, and there are no more of them than bonuses. -/
def unlimitedWalk (g : BonusGraph) (keywords : KeywordCounts) (path : List String)
    (known : NameMap Float) (name : String) : Totalled :=
  match _hbonus : g.bonus? name with
  | none => .ok (0, known)
  | some bonus =>
    match known.get? name with
    | some total => .ok (total, known)
    | none =>
      if _hpath : name ∈ path then .error (.cycleDetected (cycle path name))
      else
        (sumTotals (fun known source => g.unlimitedWalk keywords (name :: path) known source) known
          (bonus.modifier.apply bonus.value keywords) bonus.enhancedBy).map
            fun p => (p.1, p.2.insert name p.1)
termination_by (g.unmet path).length
decreasing_by exact length_unmet_lt (has_iff.2 ⟨bonus, _hbonus⟩) _hpath

/-- The total of a bonus by the walk without a limit. -/
def unlimitedTotal (g : BonusGraph) (keywords : KeywordCounts) (name : String) :
    Except BonusError Float :=
  (g.unlimitedWalk keywords [] .empty name).map (·.1)

section UnlimitedWalk

variable {left : Nat} {known : NameMap Float} {bonus : Bonus}

theorem unlimitedWalk_of_known {t : Float} (hbonus : g.bonus? name = some bonus)
    (hknown : known.get? name = some t) :
    g.unlimitedWalk keywords path known name = .ok (t, known) := by
  rw [unlimitedWalk]
  split
  · next hnone => cases hnone.symm.trans hbonus
  · rw [hknown]

theorem unlimitedWalk_of_mem (hbonus : g.bonus? name = some bonus)
    (hknown : known.get? name = none) (hpath : name ∈ path) :
    g.unlimitedWalk keywords path known name = .error (.cycleDetected (cycle path name)) := by
  rw [unlimitedWalk]
  split
  · next hnone => cases hnone.symm.trans hbonus
  · rw [hknown]
    exact dif_pos hpath

theorem unlimitedWalk_of_not_mem (hbonus : g.bonus? name = some bonus)
    (hknown : known.get? name = none) (hpath : name ∉ path) :
    g.unlimitedWalk keywords path known name =
      (sumTotals (g.unlimitedWalk keywords (name :: path)) known
        (bonus.modifier.apply bonus.value keywords) bonus.enhancedBy).map
          fun p => (p.1, p.2.insert name p.1) := by
  rw [unlimitedWalk]
  split
  · next hnone => cases hnone.symm.trans hbonus
  · next hsome =>
    obtain rfl := Option.some.inj (hsome.symm.trans hbonus)
    rw [hknown]
    exact dif_neg hpath

/-- If two ways to work out a total differ only where the first one fails in some way, sums differ
only where the first one fails in this way. -/
theorem sumTotals_eq_or {fails : BonusError → Prop}
    {total total' : NameMap Float → String → Totalled} {sources : List String}
    (h : ∀ source ∈ sources, ∀ known, total known source = total' known source ∨
      ∃ error, fails error ∧ total known source = .error error) (sum : Float) :
    sumTotals total known sum sources = sumTotals total' known sum sources ∨
      ∃ error, fails error ∧ sumTotals total known sum sources = .error error := by
  induction sources generalizing known sum with
  | nil => exact .inl rfl
  | cons source rest ih =>
    rw [sumTotals, sumTotals]
    rcases h source List.mem_cons_self known with heq | ⟨error, hfails, herror⟩
    · rw [← heq]
      cases total known source with
      | error error => exact .inl rfl
      | ok p =>
        exact ih (fun source hsource => h source (List.mem_cons_of_mem _ hsource)) (sum + p.1)
    · rw [herror]
      exact .inr ⟨error, hfails, rfl⟩

/-- Under a limit, the walk is the walk without a limit, unless it fails because of the limit. -/
theorem walk_eq_unlimitedWalk_or (g : BonusGraph) (keywords : KeywordCounts) (left : Nat)
    (path : List String) (known : NameMap Float) (name : String) :
    g.walk keywords left path known name = g.unlimitedWalk keywords path known name ∨
      ∃ error, (∃ last, error = .depthExceeded last g.maxDepth) ∧
        g.walk keywords left path known name = .error error := by
  induction left using Nat.strongRecOn generalizing path known name with
  | ind left ih =>
    cases hbonus : g.bonus? name with
    | none =>
      refine .inl ?_
      rw [walk, unlimitedWalk, hbonus]
    | some bonus =>
      obtain ⟨t, hknown, hwalk⟩ | ⟨hknown, hpath, hwalk⟩ | ⟨-, -, -, hwalk⟩ |
        ⟨hknown, hpath, left', rfl, hwalk⟩ := walk_cases keywords hbonus left path known
      · exact .inl (hwalk.trans (unlimitedWalk_of_known hbonus hknown).symm)
      · exact .inl (hwalk.trans (unlimitedWalk_of_mem hbonus hknown hpath).symm)
      · exact .inr ⟨_, ⟨name, rfl⟩, hwalk⟩
      · rw [hwalk, unlimitedWalk_of_not_mem hbonus hknown hpath]
        obtain heq | ⟨error, hlimit, herror⟩ := sumTotals_eq_or
          (fun source _ known => ih left' (Nat.lt_succ_self left') (name :: path) known source)
          (bonus.modifier.apply bonus.value keywords)
        · exact .inl (by rw [heq])
        · exact .inr ⟨error, hlimit, by rw [herror]; rfl⟩

end UnlimitedWalk

/-! ### Totals -/

theorem total_error (hclosed : g.Closed) (hname : g.Has name) {error : BonusError}
    (h : g.total keywords name = .error error) :
    (∃ cycle, error = .cycleDetected cycle ∧ g.IsCycleFrom name cycle) ∨
      ∃ last, error = .depthExceeded last g.maxDepth ∧ g.maxDepth < g.names.length :=
  walk_error hclosed hname (trail_nil name) (Nat.zero_add g.maxDepth) (map_eq_error.1 h)

theorem total_eq_unlimitedTotal_or (g : BonusGraph) (keywords : KeywordCounts) (name : String) :
    g.total keywords name = g.unlimitedTotal keywords name ∨
      ∃ last, g.total keywords name = .error (.depthExceeded last g.maxDepth) := by
  obtain heq | ⟨error, ⟨last, rfl⟩, herror⟩ :=
    walk_eq_unlimitedWalk_or g keywords g.maxDepth [] .empty name
  · exact .inl (by rw [total, unlimitedTotal, heq])
  · exact .inr ⟨last, by rw [total, herror]; rfl⟩

/-- In a graph that was built by operations, the total of a bonus comes from a walk that ends
without a limit, unless the limit is below the number of bonuses and cuts the walk short. It fails
where a cycle is reached, and what is reported as a cycle is one that is reached. -/
theorem total_detects_cycles (catalog : BonusCatalog) (config : EngineConfig)
    (ops : List Operation) (keywords : KeywordCounts) (name : String)
    (hname : ((empty catalog config).run ops).Has name) :
    let g := (empty catalog config).run ops
    (g.total keywords name = g.unlimitedTotal keywords name ∨ g.maxDepth < g.names.length ∧
      ∃ last, g.total keywords name = .error (.depthExceeded last g.maxDepth)) ∧
    (g.ReachesCycle name → (∃ path, g.total keywords name = .error (.cycleDetected path)) ∨
      ∃ last, g.total keywords name = .error (.depthExceeded last g.maxDepth)) ∧
    (¬g.ReachesCycle name → ∀ path, g.total keywords name ≠ .error (.cycleDetected path)) ∧
    ∀ path, g.total keywords name = .error (.cycleDetected path) → g.IsCycleFrom name path := by
  intro g
  have hclosed : g.Closed := closed_run catalog config ops
  have hcycle (path : List String) (h : g.total keywords name = .error (.cycleDetected path)) :
      g.IsCycleFrom name path := by
    rcases total_error hclosed hname h with ⟨cycle, heq, hcycle⟩ | ⟨last, heq, -⟩
    · cases heq
      exact hcycle
    · cases heq
  have hfree (hreaches : ¬g.ReachesCycle name) (path : List String) :
      g.total keywords name ≠ .error (.cycleDetected path) :=
    fun h => hreaches (hcycle path h).reachesCycle
  refine ⟨?_, fun hreaches => ?_, hfree, hcycle⟩
  · rcases total_eq_unlimitedTotal_or g keywords name with heq | ⟨last, h⟩
    · exact .inl heq
    · rcases total_error hclosed hname h with ⟨cycle, heq, -⟩ | ⟨-, -, hlimit⟩
      · cases heq
      · exact .inr ⟨hlimit, last, h⟩
  · cases h : g.total keywords name with
    | ok v => exact absurd hreaches (hasTotal_of_total hclosed hname h).not_reachesCycle
    | error error =>
      rcases total_error hclosed hname h with ⟨cycle, rfl, -⟩ | ⟨last, rfl, -⟩
      · exact .inl ⟨cycle, rfl⟩
      · exact .inr ⟨last, rfl⟩

/-- A bonus that is fed by two that feed each other. -/
def knot : List Operation :=
  [.insert "top" 1 .identity, .insert "left" 2 .identity, .insert "right" 3 .identity,
    .link "left" "top", .link "right" "left", .link "left" "right"]

theorem total_detects_cycles_knot : ((empty .empty {}).run knot).Has "top" ∧
    ((empty .empty {}).run knot).IsCycleFrom "top" ["left", "right", "left"] := by
  have hname : ((empty .empty {}).run knot).Has "top" := by
    rw [Has]
    decide +kernel
  have htotal : ((empty .empty {}).run knot).total (fun _ => 0) "top" =
      .error (.cycleDetected ["left", "right", "left"]) := by decide +kernel
  exact ⟨hname, (total_detects_cycles .empty {} knot (fun _ => 0) "top" hname).2.2.2 _ htotal⟩

end CharacterSheet.BonusGraph
