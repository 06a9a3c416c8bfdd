import CharacterSheet.Proofs.Bonus.CycleDetection

/-!
# Which chains are held to the limit

The limit bounds the path of the walk, and the walk does not go again where a total is known. To
each bonus it therefore takes one chain only: the one that goes on, at every bonus, to the first
source from which the other is reached. A longer chain that branches off later is never walked, so
the order in which edges were declared can decide whether a total is found.

* `BonusGraph.IsChainFrom`, `BonusGraph.FirstChain` — a chain of enhancements, and the first one to
  a bonus;
* `BonusGraph.Deep` — a bonus is new, and the first chain to it is too long;
* `BonusGraph.walk_answers` — the walk fails exactly where some bonus is too deep, and otherwise
  makes known all that it reaches;
* `BonusGraph.total_depthExceeded_iff_firstChain` — the limit is exceeded exactly by first chains;
* `BonusGraph.total_of_long_chain` — one and the same set of edges in two orders.
-/

namespace CharacterSheet.BonusGraph

open Relation

variable {g : BonusGraph} {keywords : KeywordCounts} {root name last : String}
  {path chain : List String}

/-- A chain of enhancements from a bonus: each bonus is fed by the next one. -/
structure IsChainFrom (g : BonusGraph) (name : String) (chain : List String) : Prop where
  head : chain.head? = some name
  fed : chain.IsChain g.FedBy

/-- The first chain to a bonus from one of several: it starts at the first of them from which the
bonus is reached, and goes on in the same way to what feeds it. -/
inductive FirstChain (g : BonusGraph) (last : String) : List String → List String → Prop
  | last {rest : List String} : FirstChain g last (last :: rest) [last]
  | skip {name : String} {rest chain : List String} (hname : ¬ReflTransGen g.FedBy name last)
    (hrest : FirstChain g last rest chain) : FirstChain g last (name :: rest) chain
  | step {name : String} {rest chain : List String}
    (hsources : FirstChain g last (g.enhancersOf name) chain) :
    FirstChain g last (name :: rest) (name :: chain)

namespace FirstChain

variable {names : List String}

theorem exists_isChainFrom (h : g.FirstChain last names chain) :
    ∃ name ∈ names, g.IsChainFrom name chain := by
  induction h with
  | last => exact ⟨last, List.mem_cons_self, rfl, .singleton last⟩
  | skip _ _ ih =>
    obtain ⟨name, hname, hchain⟩ := ih
    exact ⟨name, List.mem_cons_of_mem _ hname, hchain⟩
  | @step name _ chain _ ih =>
    obtain ⟨source, hsource, hhead, hfed⟩ := ih
    refine ⟨name, List.mem_cons_self, rfl, ?_⟩
    obtain ⟨rest, rfl⟩ := List.head?_eq_some_iff.1 hhead
    exact .cons_cons hsource hfed

theorem isChainFrom (h : g.FirstChain last [name] chain) : g.IsChainFrom name chain := by
  obtain ⟨name', hname', hchain⟩ := h.exists_isChainFrom
  obtain rfl := List.mem_singleton.1 hname'
  exact hchain

theorem exists_reach (h : g.FirstChain last names chain) :
    ∃ name ∈ names, ReflTransGen g.FedBy name last := by
  induction h with
  | last => exact ⟨last, List.mem_cons_self, .refl⟩
  | skip _ _ ih =>
    obtain ⟨name, hname, hreach⟩ := ih
    exact ⟨name, List.mem_cons_of_mem _ hname, hreach⟩
  | step _ ih =>
    obtain ⟨source, hsource, hreach⟩ := ih
    exact ⟨_, List.mem_cons_self, .head hsource hreach⟩

/-- A step away from the last bonus would lead back to it. -/
theorem eq_singleton {rest : List String} (hlast : ¬g.ReachesCycle last)
    (h : g.FirstChain last (last :: rest) chain) : chain = [last] := by
  cases h with
  | last => rfl
  | skip hname _ => exact absurd .refl hname
  | step hsources =>
    obtain ⟨source, hsource, hreach⟩ := hsources.exists_reach
    exact absurd ⟨last, .refl, .head' hsource hreach⟩ hlast

theorem unique {chain' : List String} (hfree : ∀ name ∈ names, ¬g.ReachesCycle name)
    (h : g.FirstChain last names chain) (h' : g.FirstChain last names chain') : chain = chain' := by
  induction h generalizing chain' with
  | last => exact (eq_singleton (hfree last List.mem_cons_self) h').symm
  | @skip name rest chain hname _ ih =>
    cases h' with
    | last => exact absurd .refl hname
    | skip _ hrest' => exact ih (fun n hn => hfree n (List.mem_cons_of_mem _ hn)) hrest'
    | step hsources' =>
      obtain ⟨source, hsource, hreach⟩ := hsources'.exists_reach
      exact absurd (.head hsource hreach) hname
  | @step name rest chain hsources ih =>
    have hname : ¬g.ReachesCycle name := hfree name List.mem_cons_self
    cases h' with
    | last =>
      have hback : g.FirstChain last (last :: rest) (last :: chain) := .step hsources
      exact eq_singleton hname hback
    | skip hname' _ =>
      obtain ⟨source, hsource, hreach⟩ := hsources.exists_reach
      exact absurd (.head hsource hreach) hname'
    | step hsources' =>
      rw [ih (fun source hsource => ?_) hsources']
      rintro ⟨first, hreach, hcycle⟩
      exact hname ⟨first, .head hsource hreach, hcycle⟩

end FirstChain

theorem exists_firstChain_of_mem {names : List String}
    (h : ∀ name ∈ names, ReflTransGen g.FedBy name last → ∃ chain, g.FirstChain last [name] chain)
    (hreach : ∃ name ∈ names, ReflTransGen g.FedBy name last) :
    ∃ chain, g.FirstChain last names chain := by
  induction names with
  | nil => simp at hreach
  | cons name rest ih =>
    by_cases hname : ReflTransGen g.FedBy name last
    · obtain ⟨chain, hchain⟩ := h name List.mem_cons_self hname
      cases hchain with
      | last => exact ⟨_, .last⟩
      | skip hname' _ => exact absurd hname hname'
      | step hsources => exact ⟨_, .step hsources⟩
    · obtain ⟨chain, hchain⟩ := ih (fun n hn => h n (List.mem_cons_of_mem name hn))
        (by simpa [hname] using hreach)
      exact ⟨chain, .skip hname hchain⟩

theorem exists_firstChain (hacc : Acc (flip g.FedBy) name)
    (hreach : ReflTransGen g.FedBy name last) : ∃ chain, g.FirstChain last [name] chain := by
  induction hacc with
  | intro name _ ih =>
    rcases ReflTransGen.cases_head hreach with rfl | ⟨source, hsource, hreach⟩
    · exact ⟨_, .last⟩
    · obtain ⟨chain, hchain⟩ := exists_firstChain_of_mem
        (fun source hsource hreach => ih source hsource hreach) ⟨source, hsource, hreach⟩
      exact ⟨_, .step hchain⟩

section Walk

variable {left : Nat} {known known' : NameMap Float} {names : List String}

/-- From one of several bonuses a bonus is reached that is not known, and the first chain to it is
longer than allowed. -/
def Deep (g : BonusGraph) (left : Nat) (known : NameMap Float) (names : List String) : Prop :=
  ∃ last chain, g.FirstChain last names chain ∧ ¬known.contains last ∧ left < chain.length

/-- A result answers for the totals of some bonuses if it is an error exactly where one of them is
too deep, and otherwise makes known exactly what is reached from them. -/
def Answers (g : BonusGraph) (left : Nat) (known : NameMap Float) (names : List String) :
    Totalled → Prop
  | .ok (_, known') => ¬g.Deep left known names ∧
      ∀ x, known'.contains x ↔ known.contains x ∨ ∃ name ∈ names, ReflTransGen g.FedBy name x
  | .error _ => g.Deep left known names

/-- Where a bonus is known, all that feeds it is known. -/
def KnowsSources (g : BonusGraph) (known : NameMap Float) : Prop :=
  ∀ target source, known.contains target → g.FedBy target source → known.contains source

theorem KnowsSources.of_reach (h : g.KnowsSources known) (hname : known.contains name)
    (hreach : ReflTransGen g.FedBy name last) : known.contains last := by
  induction hreach with
  | refl => exact hname
  | tail _ hedge ih => exact h _ _ ih hedge

theorem KnowsSources.of_iff (h : g.KnowsSources known)
    (hiff : ∀ x, known'.contains x ↔
      known.contains x ∨ ∃ name ∈ names, ReflTransGen g.FedBy name x) : g.KnowsSources known' := by
  intro target source htarget hedge
  rw [hiff] at htarget ⊢
  rcases htarget with htarget | ⟨name, hname, hreach⟩
  · exact .inl (h target source htarget hedge)
  · exact .inr ⟨name, hname, hreach.tail hedge⟩

theorem not_deep_nil : ¬g.Deep left known [] := by
  rintro ⟨last, chain, h, -⟩
  cases h

theorem Deep.head {rest : List String} (h : g.Deep left known [name]) :
    g.Deep left known (name :: rest) := by
  obtain ⟨last, chain, h, hlast, hlength⟩ := h
  cases h with
  | last => exact ⟨_, _, .last, hlast, hlength⟩
  | skip _ hrest => cases hrest
  | step hsources => exact ⟨last, _, .step hsources, hlast, hlength⟩

/-- What is too deep among several bonuses is so from the first one, or it is not reached from there
and is so among the others. -/
theorem deep_cons {rest : List String}
    (hiff : ∀ x, known'.contains x ↔
      known.contains x ∨ ∃ n ∈ [name], ReflTransGen g.FedBy n x) :
    g.Deep left known (name :: rest) ↔ g.Deep left known [name] ∨ g.Deep left known' rest := by
  have hnew (last : String) : ¬known'.contains last ↔
      ¬known.contains last ∧ ¬ReflTransGen g.FedBy name last := by
    simp [hiff last, not_or]
  constructor
  · rintro ⟨last, chain, h, hlast, hlength⟩
    cases h with
    | last => exact .inl ⟨_, _, .last, hlast, hlength⟩
    | skip hname hrest => exact .inr ⟨last, chain, hrest, (hnew last).2 ⟨hlast, hname⟩, hlength⟩
    | step hsources => exact .inl ⟨last, _, .step hsources, hlast, hlength⟩
  · rintro (h | ⟨last, chain, h, hlast, hlength⟩)
    · exact h.head
    · obtain ⟨hlast, hname⟩ := (hnew last).1 hlast
      exact ⟨last, chain, .skip hname h, hlast, hlength⟩

theorem not_deep_of_known (hknown : g.KnowsSources known) (hname : known.contains name) :
    ¬g.Deep left known [name] := by
  rintro ⟨last, chain, h, hlast, -⟩
  obtain ⟨name', hname', hreach⟩ := h.exists_reach
  obtain rfl := List.mem_singleton.1 hname'
  exact hlast (hknown.of_reach hname hreach)

theorem deep_zero (hname : ¬known.contains name) : g.Deep 0 known [name] :=
  ⟨name, [name], .last, hname, Nat.zero_lt_one⟩

/-- Below a bonus, one step less is left. -/
theorem deep_succ : g.Deep (left + 1) known [name] ↔ g.Deep left known (g.enhancersOf name) := by
  constructor
  · rintro ⟨last, chain, h, hlast, hlength⟩
    cases h with
    | last => simp at hlength
    | skip _ hrest => cases hrest
    | step hsources => exact ⟨last, _, hsources, hlast, Nat.lt_of_succ_lt_succ hlength⟩
  · rintro ⟨last, chain, h, hlast, hlength⟩
    exact ⟨last, _, .step h, hlast, Nat.succ_lt_succ hlength⟩

theorem sumTotals_answers {total : NameMap Float → String → Totalled}
    (htotal : ∀ name ∈ names, ∀ known, g.KnowsSources known →
      g.Answers left known [name] (total known name))
    (hknown : g.KnowsSources known) (sum : Float) :
    g.Answers left known names (sumTotals total known sum names) := by
  induction names generalizing known sum with
  | nil => exact ⟨not_deep_nil, by simp⟩
  | cons name rest ih =>
    have hname := htotal name List.mem_cons_self known hknown
    rw [sumTotals]
    cases hresult : total known name with
    | error error =>
      rw [hresult] at hname
      exact hname.head
    | ok p =>
      obtain ⟨t, known₁⟩ := p
      rw [hresult] at hname
      obtain ⟨hdeep, hiff⟩ := hname
      have hrest := ih (fun n hn => htotal n (List.mem_cons_of_mem name hn))
        (hknown.of_iff hiff) (sum + t)
      show g.Answers left known (name :: rest) (sumTotals total known₁ (sum + t) rest)
      cases hresult : sumTotals total known₁ (sum + t) rest with
      | error error =>
        rw [hresult] at hrest
        exact (deep_cons hiff).2 (.inr hrest)
      | ok p =>
        rw [hresult] at hrest
        obtain ⟨hdeep', hiff'⟩ := hrest
        refine ⟨fun h => ((deep_cons hiff).1 h).elim hdeep hdeep', fun x => ?_⟩
        rw [hiff', hiff]
        simp [or_assoc]

/-- In a part of the graph without cycles, the walk fails exactly where it reaches a bonus whose
total is not known by a first chain that is too long. -/
theorem walk_answers (hclosed : g.Closed) (hfree : ¬g.ReachesCycle root) (hname : g.Has name)
    (htrail : g.Trail root path name) (hknown : g.KnowsSources known) :
    g.Answers left known [name] (g.walk keywords left path known name) := by
  induction left using Nat.strongRecOn generalizing path known name with
  | ind left ih =>
    obtain ⟨bonus, hbonus⟩ := has_iff.1 hname
    obtain ⟨t, ht, hwalk⟩ | ⟨-, hmem, -⟩ | ⟨hnone, -, rfl, hwalk⟩ |
      ⟨-, hpath, left', rfl, hwalk⟩ := walk_cases keywords hbonus left path known
    · have hcontains : known.contains name := by simp [NameMap.contains, ht]
      rw [hwalk]
      refine ⟨not_deep_of_known hknown hcontains, fun x => ⟨.inl, ?_⟩⟩
      rintro (hx | ⟨name', hname', hreach⟩)
      · exact hx
      · obtain rfl := List.mem_singleton.1 hname'
        exact hknown.of_reach hcontains hreach
    · exact absurd (isCycleFrom_of_mem htrail hmem).reachesCycle hfree
    · rw [hwalk]
      exact deep_zero (by simp [NameMap.contains, hnone])
    · have hsources : g.enhancersOf name = bonus.enhancedBy := by simp [enhancersOf, hbonus]
      have hsum : g.Answers left' known bonus.enhancedBy
          (sumTotals (g.walk keywords left' (name :: path)) known
            (bonus.modifier.apply bonus.value keywords) bonus.enhancedBy) := by
        refine sumTotals_answers (fun source hsource known hknown => ?_) hknown _
        have hedge : g.FedBy name source := fedBy_iff.2 ⟨bonus, hbonus, hsource⟩
        exact ih left' (Nat.lt_succ_self left') (hclosed name source hedge)
          (htrail.cons hpath hedge) hknown
      rw [hwalk]
      cases hresult : sumTotals (g.walk keywords left' (name :: path)) known
        (bonus.modifier.apply bonus.value keywords) bonus.enhancedBy with
      | error error =>
        rw [hresult] at hsum
        exact deep_succ.2 (hsources ▸ hsum)
      | ok p =>
        rw [hresult] at hsum
        obtain ⟨hdeep, hiff⟩ := hsum
        refine ⟨fun h => hdeep (hsources ▸ deep_succ.1 h), fun x => ?_⟩
        -- a bonus reaches itself, and what is reached from what feeds it
        have hreach : ReflTransGen g.FedBy name x ↔
            x = name ∨ ∃ source ∈ bonus.enhancedBy, ReflTransGen g.FedBy source x := by
          rw [ReflTransGen.cases_head_iff, eq_comm]
          simp only [FedBy, hsources]
        show (p.2.insert name p.1).contains x ↔ _
        have hinsert : (p.2.insert name p.1).contains x ↔ x = name ∨ p.2.contains x := by
          simp only [NameMap.contains, NameMap.get?_insert]
          split <;> simp_all
        rw [hinsert, hiff]
        simp only [List.mem_singleton, exists_eq_left, hreach]
        tauto

end Walk

/-! ### Totals -/

theorem knowsSources_empty : g.KnowsSources .empty := by
  intro target source htarget
  cases htarget

/-- In a part of the graph without cycles, the limit is exceeded exactly by a first chain. -/
theorem total_cases (hclosed : g.Closed) (hfree : ¬g.ReachesCycle name) (hname : g.Has name) :
    ((∃ v, g.total keywords name = .ok v) ∧ ¬g.Deep g.maxDepth .empty [name]) ∨
      (∃ last, g.total keywords name = .error (.depthExceeded last g.maxDepth)) ∧
        g.Deep g.maxDepth .empty [name] := by
  have hanswers : g.Answers g.maxDepth .empty [name] (g.walk keywords g.maxDepth [] .empty name) :=
    walk_answers hclosed hfree hname (trail_nil name) knowsSources_empty
  cases hwalk : g.walk keywords g.maxDepth [] .empty name with
  | ok p =>
    rw [hwalk] at hanswers
    exact .inl ⟨⟨p.1, by rw [total, hwalk]; rfl⟩, hanswers.1⟩
  | error error =>
    rw [hwalk] at hanswers
    have htotal : g.total keywords name = .error error := by rw [total, hwalk]; rfl
    rcases total_error hclosed hname htotal with ⟨cycle, -, hcycle⟩ | ⟨last, rfl, -⟩
    · exact absurd hcycle.reachesCycle hfree
    · exact .inr ⟨⟨last, htotal⟩, hanswers⟩

theorem deep_empty_iff {left : Nat} {names : List String} : g.Deep left .empty names ↔
    ∃ last chain, g.FirstChain last names chain ∧ left < chain.length := by
  simp [Deep, NameMap.contains]

/-- A walk that may be as long as there are bonuses ends, so without cycles the edges do. -/
theorem acc_of_not_reachesCycle (hclosed : g.Closed) (hname : g.Has name)
    (hfree : ¬g.ReachesCycle name) : Acc (flip g.FedBy) name := by
  let g' : BonusGraph := { g with maxDepth := g.names.length }
  cases htotal : g'.total (fun _ => 0) name with
  | ok v =>
    obtain ⟨bonus, hbonus, hsum⟩ := hasTotal_of_total (g := g') hclosed hname htotal
    exact acc_of_enhancedBy hbonus hsum.acc
  | error error =>
    rcases total_error (g := g') hclosed hname htotal with ⟨cycle, -, hcycle⟩ | ⟨-, -, hlimit⟩
    · exact absurd hcycle.reachesCycle hfree
    · exact absurd hlimit (Nat.lt_irrefl _)

/-- In a graph that was built by operations, from a bonus that reaches no cycle: the limit is
exceeded exactly if the first chain to some bonus is longer than it, and then it is exceeded by a
chain of enhancements; otherwise there is a total. To each bonus that is reached there is one first
chain. -/
theorem total_depthExceeded_iff_firstChain (catalog : BonusCatalog) (config : EngineConfig)
    (ops : List Operation) (keywords : KeywordCounts) (name : String)
    (hname : ((empty catalog config).run ops).Has name)
    (hfree : ¬((empty catalog config).run ops).ReachesCycle name) :
    let g := (empty catalog config).run ops
    ((∃ last, g.total keywords name = .error (.depthExceeded last g.maxDepth)) ↔
      ∃ last chain, g.FirstChain last [name] chain ∧ g.maxDepth < chain.length) ∧
    ((∃ v, g.total keywords name = .ok v) ↔
      ¬∃ last chain, g.FirstChain last [name] chain ∧ g.maxDepth < chain.length) ∧
    (∀ last chain, g.FirstChain last [name] chain → g.IsChainFrom name chain) ∧
    ∀ last, ReflTransGen g.FedBy name last → ∃! chain, g.FirstChain last [name] chain := by
  intro g
  have hclosed : g.Closed := closed_run catalog config ops
  rw [← deep_empty_iff]
  refine ⟨?_, ?_, fun last chain h => h.isChainFrom, fun last hreach => ?_⟩
  · rcases total_cases hclosed hfree hname with ⟨⟨v, h⟩, hdeep⟩ | ⟨h, hdeep⟩
    · refine iff_of_false ?_ hdeep
      rintro ⟨last, herror⟩
      cases h.symm.trans herror
    · exact iff_of_true h hdeep
  · rcases total_cases hclosed hfree hname with ⟨h, hdeep⟩ | ⟨⟨last, h⟩, hdeep⟩
    · exact iff_of_true h hdeep
    · refine iff_of_false ?_ (not_not_intro hdeep)
      rintro ⟨v, hok⟩
      cases h.symm.trans hok
  · obtain ⟨chain, hchain⟩ :=
      exists_firstChain (acc_of_not_reachesCycle hclosed hname hfree) hreach
    refine ⟨chain, hchain, fun chain' hchain' => hchain'.unique ?_ hchain⟩
    simpa using hfree

/-- Three bonuses of which chains may be two long. One feeds another, and both feed the third, whose
edges are put in in the order that is given. -/
def triangle (first second : String) : BonusGraph :=
  (empty .empty { maxBonusDepth := 2 }).run
    [.insert "top" 1 .identity, .insert "middle" 1 .identity, .insert "base" 1 .identity,
      .link "base" "middle", .link first "top", .link second "top"]

/-- A longer walk than the limit allows may show that there is no cycle. -/
theorem not_reachesCycle_of_walk {left : Nat} {v : Float} (hclosed : g.Closed) (hname : g.Has name)
    (h : (g.walk keywords left [] .empty name).map (·.1) = .ok v) : ¬g.ReachesCycle name := by
  obtain ⟨⟨v, known⟩, hwalk, rfl⟩ := map_eq_ok.1 h
  exact (hasTotal_of_walk hclosed hname remembers_empty hwalk).1.not_reachesCycle

theorem total_depthExceeded_iff_firstChain_triangle :
    (triangle "middle" "base").Has "top" ∧ ¬(triangle "middle" "base").ReachesCycle "top" ∧
      ∃ last chain, (triangle "middle" "base").FirstChain last ["top"] chain ∧
        2 < chain.length := by
  have hname : (triangle "middle" "base").Has "top" := by
    rw [Has]
    decide +kernel
  have hwalk : ((triangle "middle" "base").walk (fun _ => 0) 3 [] .empty "top").map (·.1) =
      .ok 4 := by decide +kernel
  have hfree : ¬(triangle "middle" "base").ReachesCycle "top" :=
    not_reachesCycle_of_walk (closed_run _ _ _) hname hwalk
  have htotal : (triangle "middle" "base").total (fun _ => 0) "top" =
      .error (.depthExceeded "base" 2) := by decide +kernel
  exact ⟨hname, hfree, (total_depthExceeded_iff_firstChain .empty { maxBonusDepth := 2 } _
    (fun _ => 0) "top" hname hfree).1.1 ⟨"base", htotal⟩⟩

/-- The limit is not exceeded by every chain that is longer: where the two edges are put in in one
order there is a total, and in the other order there is none. -/
theorem total_of_long_chain :
    (triangle "base" "middle").Has "top" ∧ ¬(triangle "base" "middle").ReachesCycle "top" ∧
      (¬((∃ last, (triangle "base" "middle").total (fun _ => 0) "top" =
          .error (.depthExceeded last (triangle "base" "middle").maxDepth)) ↔
        ∃ chain, (triangle "base" "middle").IsChainFrom "top" chain ∧
          (triangle "base" "middle").maxDepth < chain.length)) ∧
      (triangle "base" "middle").total (fun _ => 0) "top" = .ok 4 ∧
      (triangle "middle" "base").total (fun _ => 0) "top" = .error (.depthExceeded "base" 2) := by
  have hname : (triangle "base" "middle").Has "top" := by
    rw [Has]
    decide +kernel
  have hwalk : ((triangle "base" "middle").walk (fun _ => 0) 3 [] .empty "top").map (·.1) =
      .ok 4 := by decide +kernel
  have hfree : ¬(triangle "base" "middle").ReachesCycle "top" :=
    not_reachesCycle_of_walk (closed_run _ _ _) hname hwalk
  have hmiddle : (triangle "base" "middle").FedBy "top" "middle" := by
    rw [FedBy]
    decide +kernel
  have hbase : (triangle "base" "middle").FedBy "middle" "base" := by
    rw [FedBy]
    decide +kernel
  have htotal : (triangle "base" "middle").total (fun _ => 0) "top" = .ok 4 := by decide +kernel
  refine ⟨hname, hfree, fun h => ?_, htotal, by decide +kernel⟩
  obtain ⟨last, herror⟩ := h.2 ⟨["top", "middle", "base"],
    ⟨rfl, .cons_cons hmiddle (.cons_cons hbase (.singleton _))⟩, by decide +kernel⟩
  cases htotal.symm.trans herror

end CharacterSheet.BonusGraph
