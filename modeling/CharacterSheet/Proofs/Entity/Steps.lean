import Mathlib.Tactic.Common
import CharacterSheet.Entity.Operation
import CharacterSheet.Proofs.Except

/-!
# What an operation does to a character

* `Entity.Step` — all that an accepted operation does, and what it takes to be accepted;
* `Entity.perform_eq_ok_iff` — the operations do this;
* `Entity.Operation.amount?`, `Entity.Step.count_eq` — what an operation adds to the count of a
  keyword;
* `Entity.Operation.delta?`, `Entity.Step.base?_of_some` — what it adds to a base value;
* `Entity.names_nodup_run`, `Entity.base?_of_mem` — names tell the statistics of a character apart.
-/

namespace CharacterSheet.Entity

/-- An operation is accepted by a character, and makes another of it. -/
inductive Step (e : Entity) : Operation → Entity → Prop
  | register {s : Statistic} (hnew : e.base? s.name = none) (hfinite : s.baseValue.isFinite) :
    Step e (.register s) { e with
      statistics := e.statistics ++ [s]
      keywords := e.keywords.seed s.name s.baseValue }
  | increase {name : String} {delta : Float} (hname : (e.base? name).isSome)
    (hdelta : isAmount delta) :
    Step e (.increase name delta) { e with
      statistics := e.statistics.map fun s => if s.name == name then s.raise delta else s
      keywords := e.keywords.seed name delta }
  | addKeyword {name : String} {amount : Float} (hamount : isAmount amount) :
    Step e (.addKeyword name amount) { e with keywords := e.keywords.seed name amount }
  | attach {enhancer : Enhancer} (hnew : ¬e.isAttached enhancer.name) :
    Step e (.attach enhancer) { e with enhancers := e.enhancers ++ [enhancer] }
  | detach {name : String} : Step e (.detach name) (e.detach name)

variable {e next : Entity} {op : Operation} {name : String}

theorem add_eq_ok_iff {c c' : KeywordCounter} {amount : Float} :
    c.add name amount = .ok c' ↔ isAmount amount ∧ c' = c.seed name amount := by
  unfold KeywordCounter.add
  split
  · next h => simp [h, eq_comm]
  · next h => simp [h]

theorem perform_eq_ok_iff : e.perform op = .ok next ↔ e.Step op next := by
  constructor
  · intro h
    cases op with
    | register s =>
      simp only [perform, register] at h
      split at h
      · cases h
      · next hnew =>
        split at h
        · cases h
        · next hfinite =>
          cases h
          exact .register (by simpa using hnew) (by simpa using hfinite)
    | increase name delta =>
      simp only [perform, increase] at h
      split at h
      · cases h
      · next s hname =>
        obtain ⟨keywords, hadd, h⟩ := bind_eq_ok.1 h
        obtain ⟨hdelta, rfl⟩ := add_eq_ok_iff.1 hadd
        cases h
        exact .increase (by simp [hname]) hdelta
    | addKeyword name amount =>
      obtain ⟨keywords, hadd, h⟩ := bind_eq_ok.1 h
      obtain ⟨hamount, rfl⟩ := add_eq_ok_iff.1 hadd
      cases h
      exact .addKeyword hamount
    | attach enhancer =>
      simp only [perform, attach] at h
      split at h
      · cases h
      · next hnew =>
        cases h
        exact .attach hnew
    | detach name =>
      cases h
      exact .detach
  · rintro (⟨hnew, hfinite⟩ | ⟨hname, hdelta⟩ | hamount | hnew | _)
    · simp [perform, register, hnew, hfinite]
    · obtain ⟨s, hs⟩ := Option.isSome_iff_exists.1 hname
      simp only [perform, increase, hs]
      exact bind_eq_ok.2 ⟨_, add_eq_ok_iff.2 ⟨hdelta, rfl⟩, rfl⟩
    · exact bind_eq_ok.2 ⟨_, add_eq_ok_iff.2 ⟨hamount, rfl⟩, rfl⟩
    · simp [perform, attach, hnew]
    · rfl

/-! ### Keywords -/

/-- What an accepted operation adds to the count of a keyword, if it does. -/
def Operation.amount? (keyword : String) : Operation → Option Float
  | .register s => if s.name = keyword then some s.baseValue else none
  | .increase name delta => if name = keyword then some delta else none
  | .addKeyword name amount => if name = keyword then some amount else none
  | .attach _ | .detach _ => none

theorem count_seed_eq (c : KeywordCounter) (name keyword : String) (value : Float) :
    (c.seed name value).count keyword =
      (if name = keyword then some value else none).elim (c.count keyword)
        (c.count keyword + ·) := by
  rw [KeywordCounter.count_seed]
  by_cases h : name = keyword
  · rw [if_pos h, if_pos h.symm, h, Option.elim_some]
  · rw [if_neg h, if_neg (Ne.symm h), Option.elim_none]

theorem Step.count_eq (h : e.Step op next) (keyword : String) :
    next.keywords.count keyword =
      (op.amount? keyword).elim (e.keywords.count keyword) (e.keywords.count keyword + ·) := by
  cases h with
  | register | increase | addKeyword => exact count_seed_eq ..
  | attach | detach => rfl

/-! ### Statistics -/

/-- What an accepted operation adds to the base value of a statistic, if it does. -/
def Operation.delta? (statistic : String) : Operation → Option Float
  | .increase name delta => if name = statistic then some delta else none
  | _ => none

/-- The statistic that an accepted operation brings. -/
def Operation.registered? : Operation → Option Statistic
  | .register s => some s
  | _ => none

theorem Step.base?_of_register {s : Statistic} (h : e.Step (.register s) next) :
    next.base? s.name = some s := by
  cases h with
  | register hnew =>
    rw [Entity.base?] at hnew
    simp [Entity.base?, List.find?_append, hnew]

theorem Step.base?_of_some (h : e.Step op next) {s : Statistic} (hs : e.base? name = some s) :
    next.base? name = some ((op.delta? name).elim s s.raise) := by
  cases h with
  | register => simp_all [Entity.base?, Operation.delta?]
  | @increase raised delta =>
    have hname : s.name = name := by simpa using List.find?_some hs
    have hkeeps : ((fun t : Statistic => t.name == name) ∘
        fun t => if t.name == raised then t.raise delta else t) = fun t => t.name == name := by
      funext t
      simp only [Function.comp_apply]
      split <;> rfl
    rw [Entity.base?] at hs
    rw [Entity.base?, List.find?_map, hkeeps, hs, Option.map_some, hname, Operation.delta?]
    by_cases h : raised = name
    · simp [h]
    · simp [h, Ne.symm h]
  | addKeyword | attach | detach => exact hs

theorem Step.names_eq (h : e.Step op next) : next.statistics.map (·.name) =
    e.statistics.map (·.name) ++ op.registered?.toList.map (·.name) := by
  cases h with
  | register => simp [Operation.registered?]
  | increase =>
    simp only [List.map_map, Operation.registered?, Option.toList_none, List.map_nil,
      List.append_nil]
    refine List.map_congr_left fun t _ => ?_
    simp only [Function.comp_apply]
    split <;> rfl
  | addKeyword | attach | detach => simp [Operation.registered?, Entity.detach]

/-! ### Enhancers -/

/-- Taking out an element of one kind makes no difference to the elements of another kind. -/
theorem filter_eraseP {α : Type} {p q : α → Bool} {l : List α} (h : ∀ a ∈ l, p a → ¬q a) :
    (l.eraseP p).filter q = l.filter q := by
  rcases List.exists_or_eq_self_of_eraseP p l with heq | ⟨a, before, after, -, ha, hl, heq⟩
  · rw [heq]
  · rw [heq, hl, List.filter_append, List.filter_append,
      List.filter_cons_of_neg (h a (by simp [hl]) ha)]

/-! ### Names -/

theorem not_mem_names_of_base? (h : e.base? name = none) : name ∉ e.statistics.map (·.name) := by
  rintro hname
  obtain ⟨s, hs, rfl⟩ := List.mem_map.1 hname
  exact List.find?_eq_none.1 h s hs (beq_self_eq_true s.name)

theorem base?_eq_none_iff : e.base? name = none ↔ name ∉ e.statistics.map (·.name) := by
  refine ⟨not_mem_names_of_base?, fun hname => List.find?_eq_none.2 fun s hs hbeq => hname ?_⟩
  exact eq_of_beq hbeq ▸ List.mem_map_of_mem hs

theorem mem_of_base? {s : Statistic} (h : e.base? name = some s) :
    s ∈ e.statistics ∧ s.name = name := by
  unfold base? at h
  have hname := List.find?_some h
  exact ⟨List.mem_of_find?_eq_some h, eq_of_beq hname⟩

theorem Step.names_nodup (h : e.Step op next) (hnodup : (e.statistics.map (·.name)).Nodup) :
    (next.statistics.map (·.name)).Nodup := by
  rw [h.names_eq]
  cases h with
  | register hnew =>
    refine List.nodup_append.2 ⟨hnodup, by simp [Operation.registered?], ?_⟩
    rintro name hname _ hlast rfl
    obtain rfl := List.mem_singleton.1 hlast
    exact not_mem_names_of_base? hnew hname
  | increase | addKeyword | attach | detach => simpa [Operation.registered?] using hnodup

theorem names_nodup_run_of (hnodup : (e.statistics.map (·.name)).Nodup) (ops : List Operation) :
    ((e.run ops).statistics.map (·.name)).Nodup := by
  refine History.run_induction (P := fun e : Entity => (e.statistics.map (·.name)).Nodup) ?_ hnodup
    ops
  intro e op next hop hnodup
  exact (perform_eq_ok_iff.1 hop).names_nodup hnodup

theorem names_nodup_run (config : EngineConfig) (ops : List Operation) :
    ((({ config } : Entity).run ops).statistics.map (·.name)).Nodup :=
  names_nodup_run_of (e := { config }) List.nodup_nil ops

theorem base?_of_mem (hnodup : (e.statistics.map (·.name)).Nodup) {s : Statistic}
    (hs : s ∈ e.statistics) : e.base? s.name = some s := by
  obtain ⟨before, after, heq⟩ := List.append_of_mem hs
  rw [heq, List.map_append, List.nodup_append] at hnodup
  rw [base?, List.find?_eq_some_iff_append]
  refine ⟨beq_self_eq_true s.name, before, after, heq, fun t ht => ?_⟩
  have hne : t.name ≠ s.name :=
    hnodup.2.2 t.name (List.mem_map_of_mem ht) s.name List.mem_cons_self
  simpa using hne

end CharacterSheet.Entity
