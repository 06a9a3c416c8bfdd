import Mathlib.Control.Monad.Basic
import CharacterSheet.Bonus.Total
import CharacterSheet.Proofs.Bonus.Edges
import CharacterSheet.Proofs.Except

/-!
# Totals without a memory

The total of a bonus is its own modified value with the totals of what feeds it added one after the
other. The walk remembers the totals that it has worked out; since it remembers nothing but totals
in this sense, what it finds is the total that would be found without a memory.

* `BonusGraph.HasTotal` — the total of a bonus, by no more than its definition;
* `BonusGraph.HasTotal.not_reachesCycle` — a bonus that has a total reaches no cycle;
* `BonusGraph.walk_cases` — all that one step of the walk can do;
* `BonusGraph.hasTotal_of_walk` — the walk finds totals and remembers totals;
* `BonusGraph.total_eq_plain_total` — a total that is found is the plain one, and the only one.
-/

namespace CharacterSheet.BonusGraph

open Relation

variable {g : BonusGraph} {keywords : KeywordCounts} {name : String}

/-- A sum is what a number becomes when the totals of some bonuses are added, from left to right,
where each total is again such a sum, starting from a bonus's own value. -/
inductive HasSum (g : BonusGraph) (keywords : KeywordCounts) : Float → List String → Float → Prop
  | nil {sum : Float} : HasSum g keywords sum [] sum
  | cons {sum t total : Float} {source : String} {rest : List String} {bonus : Bonus}
    (hbonus : g.bonus? source = some bonus)
    (ht : HasSum g keywords (bonus.modifier.apply bonus.value keywords) bonus.enhancedBy t)
    (hrest : HasSum g keywords (sum + t) rest total) :
    HasSum g keywords sum (source :: rest) total

/-- The total of a bonus: its own modified value, and the totals of what feeds it added in order. -/
def HasTotal (g : BonusGraph) (keywords : KeywordCounts) (name : String) (total : Float) : Prop :=
  ∃ bonus, g.bonus? name = some bonus ∧
    g.HasSum keywords (bonus.modifier.apply bonus.value keywords) bonus.enhancedBy total

theorem hasSum_cons {sum total : Float} {source : String} {rest : List String} :
    g.HasSum keywords sum (source :: rest) total ↔
      ∃ t, g.HasTotal keywords source t ∧ g.HasSum keywords (sum + t) rest total := by
  constructor
  · rintro (_ | ⟨hbonus, ht, hrest⟩)
    exact ⟨_, ⟨_, hbonus, ht⟩, hrest⟩
  · rintro ⟨t, ⟨bonus, hbonus, ht⟩, hrest⟩
    exact .cons hbonus ht hrest

theorem HasSum.unique {sum v w : Float} {sources : List String}
    (h : g.HasSum keywords sum sources v) (h' : g.HasSum keywords sum sources w) : v = w := by
  induction h generalizing w with
  | nil =>
    cases h'
    rfl
  | cons hbonus _ _ iht ihrest =>
    obtain ⟨t', ⟨bonus', hbonus', ht'⟩, hrest'⟩ := hasSum_cons.1 h'
    obtain rfl := Option.some.inj (hbonus.symm.trans hbonus')
    obtain rfl := iht ht'
    exact ihrest hrest'

theorem HasTotal.unique {v w : Float} (h : g.HasTotal keywords name v)
    (h' : g.HasTotal keywords name w) : v = w := by
  obtain ⟨bonus, hbonus, hsum⟩ := h
  obtain ⟨bonus', hbonus', hsum'⟩ := h'
  obtain rfl := Option.some.inj (hbonus.symm.trans hbonus')
  exact hsum.unique hsum'

/-! ### What has a total reaches no cycle -/

/-- A bonus is well founded in what feeds it if all that feeds it directly is. -/
theorem acc_of_enhancedBy {bonus : Bonus} (hbonus : g.bonus? name = some bonus)
    (h : ∀ source ∈ bonus.enhancedBy, Acc (flip g.FedBy) source) : Acc (flip g.FedBy) name := by
  refine .intro name fun source hedge => ?_
  obtain ⟨bonus', hbonus', hsource⟩ := fedBy_iff.1 hedge
  obtain rfl := Option.some.inj (hbonus.symm.trans hbonus')
  exact h source hsource

theorem HasSum.acc {sum total : Float} {sources : List String}
    (h : g.HasSum keywords sum sources total) : ∀ source ∈ sources, Acc (flip g.FedBy) source := by
  induction h with
  | nil => simp
  | cons hbonus _ _ iht ihrest =>
    exact List.forall_mem_cons.2 ⟨acc_of_enhancedBy hbonus iht, ihrest⟩

theorem not_transGen_of_acc {α : Type} {r : α → α → Prop} {x : α} (h : Acc (flip r) x) :
    ¬TransGen r x x := by
  intro hcycle
  have hacc : Acc (TransGen (flip r)) x := h.transGen
  replace hcycle : TransGen (flip r) x x := transGen_swap.2 hcycle
  clear h
  induction hacc with
  | intro x _ ih => exact ih x hcycle hcycle

theorem acc_of_reflTransGen {α : Type} {r : α → α → Prop} {x y : α} (h : Acc (flip r) x)
    (hreach : ReflTransGen r x y) : Acc (flip r) y := by
  induction hreach with
  | refl => exact h
  | tail _ hstep ih => exact ih.inv hstep

theorem HasTotal.not_reachesCycle {total : Float} (h : g.HasTotal keywords name total) :
    ¬g.ReachesCycle name := by
  obtain ⟨bonus, hbonus, hsum⟩ := h
  rintro ⟨first, hreach, hcycle⟩
  have hacc : Acc (flip g.FedBy) name := acc_of_enhancedBy hbonus hsum.acc
  exact not_transGen_of_acc (acc_of_reflTransGen hacc hreach) hcycle

/-! ### The walk -/

section Walk

variable {left : Nat} {path : List String} {known known' : NameMap Float} {v : Float}

/-- One step of the walk finds a known total, closes a cycle, runs out of length, or goes on to what
feeds the bonus. -/
theorem walk_cases (keywords : KeywordCounts) {bonus : Bonus} (hbonus : g.bonus? name = some bonus)
    (left : Nat) (path : List String) (known : NameMap Float) :
    (∃ t, known.get? name = some t ∧ g.walk keywords left path known name = .ok (t, known)) ∨
    (known.get? name = none ∧ name ∈ path ∧
      g.walk keywords left path known name = .error (.cycleDetected (cycle path name))) ∨
    (known.get? name = none ∧ name ∉ path ∧ left = 0 ∧
      g.walk keywords left path known name = .error (.depthExceeded name g.maxDepth)) ∨
    (known.get? name = none ∧ name ∉ path ∧ ∃ left', left = left' + 1 ∧
      g.walk keywords left path known name =
        (sumTotals (g.walk keywords left' (name :: path)) known
          (bonus.modifier.apply bonus.value keywords) bonus.enhancedBy).map
          fun p => (p.1, p.2.insert name p.1)) := by
  unfold walk
  rw [hbonus]
  cases hknown : known.get? name with
  | some t => exact .inl ⟨t, rfl, rfl⟩
  | none =>
    by_cases hpath : name ∈ path
    · exact .inr (.inl ⟨rfl, hpath, by simp [hpath]⟩)
    · cases left with
      | zero => exact .inr (.inr (.inl ⟨rfl, hpath, rfl, by simp [hpath]⟩))
      | succ left =>
        refine .inr (.inr (.inr ⟨rfl, hpath, left, rfl, ?_⟩))
        simp only [hpath, if_false]
        rfl

/-- All that is remembered are totals. -/
def Remembers (g : BonusGraph) (keywords : KeywordCounts) (known : NameMap Float) : Prop :=
  ∀ name total, known.get? name = some total → g.HasTotal keywords name total

theorem Remembers.insert (h : g.Remembers keywords known) (hv : g.HasTotal keywords name v) :
    g.Remembers keywords (known.insert name v) := by
  intro other total hother
  rw [NameMap.get?_insert] at hother
  split at hother
  · next heq =>
    subst heq
    obtain rfl := Option.some.inj hother
    exact hv
  · exact h other total hother

/-- Totals that are found one after the other add up, and the memory is handed on. -/
theorem hasSum_of_sumTotals {total : NameMap Float → String → Totalled} {sources : List String}
    (htotal : ∀ source ∈ sources, ∀ known known' t, g.Remembers keywords known →
      total known source = .ok (t, known') →
      g.HasTotal keywords source t ∧ g.Remembers keywords known')
    {sum : Float} (hknown : g.Remembers keywords known)
    (h : sumTotals total known sum sources = .ok (v, known')) :
    g.HasSum keywords sum sources v ∧ g.Remembers keywords known' := by
  induction sources generalizing known sum with
  | nil =>
    cases h
    exact ⟨.nil, hknown⟩
  | cons source rest ih =>
    obtain ⟨⟨t, known₁⟩, hsource, h⟩ := bind_eq_ok.1 h
    obtain ⟨ht, hknown₁⟩ := htotal source List.mem_cons_self known known₁ t hknown hsource
    obtain ⟨hrest, hknown'⟩ :=
      ih (fun source hsource => htotal source (List.mem_cons_of_mem _ hsource)) hknown₁ h
    exact ⟨hasSum_cons.2 ⟨t, ht, hrest⟩, hknown'⟩

/-- What the walk finds is a total, and what it remembers then are totals. -/
theorem hasTotal_of_walk (hclosed : g.Closed) (hname : g.Has name)
    (hknown : g.Remembers keywords known)
    (h : g.walk keywords left path known name = .ok (v, known')) :
    g.HasTotal keywords name v ∧ g.Remembers keywords known' := by
  induction left using Nat.strongRecOn generalizing path known known' name v with
  | ind left ih =>
    obtain ⟨bonus, hbonus⟩ := has_iff.1 hname
    obtain ⟨t, ht, hwalk⟩ | ⟨-, -, hwalk⟩ | ⟨-, -, -, hwalk⟩ | ⟨-, -, left', rfl, hwalk⟩ :=
      walk_cases keywords hbonus left path known
    · obtain ⟨rfl, rfl⟩ : v = t ∧ known' = known := by simpa using h.symm.trans hwalk
      exact ⟨hknown name _ ht, hknown⟩
    · cases h.symm.trans hwalk
    · cases h.symm.trans hwalk
    · obtain ⟨⟨total, known₁⟩, hsum, heq⟩ := map_eq_ok.1 (hwalk.symm.trans h)
      cases heq
      -- the walk asks for what feeds the bonus only, and all of that is there
      have hsources : ∀ source ∈ bonus.enhancedBy, g.Has source := fun source hsource =>
        hclosed name source (fedBy_iff.2 ⟨bonus, hbonus, hsource⟩)
      obtain ⟨hsum, hknown₁⟩ := hasSum_of_sumTotals
        (fun source hsource _ _ _ hknown hwalk =>
          ih left' (Nat.lt_succ_self _) (hsources source hsource) hknown hwalk) hknown hsum
      have htotal : g.HasTotal keywords name total := ⟨bonus, hbonus, hsum⟩
      exact ⟨htotal, hknown₁.insert htotal⟩

end Walk

theorem remembers_empty : g.Remembers keywords .empty := by
  intro name total h
  cases h

theorem hasTotal_of_total {v : Float} (hclosed : g.Closed) (hname : g.Has name)
    (h : g.total keywords name = .ok v) : g.HasTotal keywords name v := by
  obtain ⟨⟨v, known⟩, hwalk, rfl⟩ := map_eq_ok.1 h
  exact (hasTotal_of_walk hclosed hname remembers_empty hwalk).1

theorem total_of_not_has (hname : ¬g.Has name) : g.total keywords name = .ok 0 := by
  have hnone : g.bonus? name = none := by simpa [Has] using hname
  unfold total walk
  rw [hnone]
  rfl

/-- In a graph that was built by operations, a total that is found for a bonus is its plain total,
which it has no other, and the bonus reaches no cycle. What is no bonus has the total zero. -/
theorem total_eq_plain_total (catalog : BonusCatalog) (config : EngineConfig)
    (ops : List Operation) (keywords : KeywordCounts) (name : String) :
    (((empty catalog config).run ops).Has name → ∀ v,
      ((empty catalog config).run ops).total keywords name = .ok v →
      ¬((empty catalog config).run ops).ReachesCycle name ∧
        ∀ w, ((empty catalog config).run ops).HasTotal keywords name w ↔ w = v) ∧
    (¬((empty catalog config).run ops).Has name →
      ((empty catalog config).run ops).total keywords name = .ok 0) := by
  refine ⟨fun hname v h => ?_, total_of_not_has⟩
  have htotal := hasTotal_of_total (closed_run catalog config ops) hname h
  refine ⟨htotal.not_reachesCycle, fun w => ⟨fun hw => hw.unique htotal, ?_⟩⟩
  rintro rfl
  exact htotal

/-- Two bonuses that are fed by one and the same feed a third. -/
def diamond : List Operation :=
  [.insert "base" 1 (.scaled 2), .insert "left" 3 .identity, .insert "right" 5 (.multipliedBy "k"),
    .insert "top" 7 .identity, .link "base" "left", .link "base" "right", .link "left" "top",
    .link "right" "top"]

theorem total_eq_plain_total_diamond :
    ¬((empty .empty {}).run diamond).ReachesCycle "top" ∧
      ∀ w, ((empty .empty {}).run diamond).HasTotal (fun _ => 2) "top" w ↔ w = 24 := by
  have hname : ((empty .empty {}).run diamond).Has "top" := by
    rw [Has]
    decide +kernel
  exact (total_eq_plain_total .empty {} diamond (fun _ => 2) "top").1 hname 24 (by decide +kernel)

end CharacterSheet.BonusGraph
