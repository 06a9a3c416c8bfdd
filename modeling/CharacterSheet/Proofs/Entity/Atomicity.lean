import Mathlib.Data.List.Nodup
import CharacterSheet.Entity.InPlace
import CharacterSheet.Proofs.Entity.Steps

/-!
# All or nothing

A change writes to a character in place, and some changes write at two places. All of them check
what they are given before they write anything, so one that is turned down leaves no trace, and one
that is accepted stays within what it is about.

* `Change.run_register`, `Change.run_increase_of_some`, `Change.run_addKeyword`,
  `Change.run_attach`, `Change.run_detach` — what the changes leave behind, with their answers;
* `Entity.run_change`, `Entity.runInPlace_eq_run` — changes in place make the same characters as the
  operations;
* `Operation.IsRefused` — the conditions under which an operation is turned down;
* `Operation.StaysWithin` — all that is no business of an operation is as it was;
* `Entity.change_all_or_nothing` — both hold of every change of every character.
-/

namespace CharacterSheet.Entity

variable {e next : Entity} {op : Operation} {name : String}

/-! ### Changes and operations -/

namespace Change

theorem run_addKeyword (e : Entity) (name : String) (amount : Float) :
    (addKeyword name amount).run e =
      match e.addKeyword name amount with
      | .ok next => .ok (next.keywords.count name) next
      | .error error => .error error e := by
  unfold addKeyword Entity.addKeyword KeywordCounter.add
  by_cases hamount : isAmount amount
  · simp only [hamount, ↓reduceIte]
    rfl
  · simp only [hamount]
    rfl

theorem run_register (e : Entity) (s : Statistic) :
    (register s).run e =
      match e.register s with
      | .ok next => .ok () next
      | .error error => .error error e := by
  unfold register Entity.register
  rw [EStateM.run_bind, EStateM.run_get]
  by_cases hnew : (e.base? s.name).isSome
  · simp only [hnew, ↓reduceIte]
    rfl
  · by_cases hfinite : s.baseValue.isFinite
    · simp only [hnew, hfinite]
      rfl
    · simp only [hnew, hfinite]
      rfl

theorem run_attach (e : Entity) (enhancer : Enhancer) :
    (attach enhancer).run e =
      match e.attach enhancer with
      | .ok next => .ok () next
      | .error error => .error error e := by
  unfold attach Entity.attach
  rw [EStateM.run_bind, EStateM.run_get]
  by_cases hnew : e.isAttached enhancer.name
  · simp only [hnew, ↓reduceIte]
    rfl
  · simp only [hnew]
    rfl

theorem run_detach (e : Entity) (name : String) :
    (detach name).run e = .ok (e.enhancer? name) (e.detach name) := by
  unfold detach Entity.detach Entity.enhancer?
  rw [List.eraseP_eq_eraseIdx, List.find?_eq_map_findFinIdx?_getElem,
    List.findIdx?_eq_map_findFinIdx?_val, EStateM.run_bind, EStateM.run_get]
  dsimp only
  cases e.enhancers.findFinIdx? fun h => h.name == name with
  | none => rfl
  | some i => rfl

/-- Where names are distinct, changing the statistic at the place of a name is changing every
statistic of that name. -/
theorem set_eq_map {l : List Statistic} (hnodup : (l.map (·.name)).Nodup) (i : Fin l.length)
    (hname : l[i].name = name) (f : Statistic → Statistic) :
    l.set i (f l[i]) = l.map fun s => if s.name == name then f s else s := by
  refine List.ext_getElem (by simp) fun j hset hj => ?_
  have hj : j < l.length := by simpa using hj
  rw [List.getElem_set, List.getElem_map]
  by_cases heq : i.val = j
  · subst heq
    have hbeq : (l[i.val].name == name) = true := by simpa using hname
    rw [if_pos rfl, if_pos hbeq]
    rfl
  · have hne : l[j].name ≠ name := by
      intro hother
      have hsame : l[i.val] = l[j] := List.inj_on_of_nodup_map hnodup (List.getElem_mem i.isLt)
        (List.getElem_mem hj) (hname.trans hother.symm)
      exact heq (hnodup.of_map.getElem_inj_iff.1 hsame)
    rw [if_neg heq, if_neg (by simpa using hne)]

theorem run_increase_of_none (h : e.base? name = none) (delta : Float) :
    (increase name delta).run e = .error (.unknownStatistic name) e := by
  rw [base?, List.find?_eq_map_findFinIdx?_getElem, Option.map_eq_none_iff] at h
  unfold increase
  rw [EStateM.run_bind, EStateM.run_get]
  dsimp only
  rw [h]
  rfl

theorem run_increase_of_some (hnodup : (e.statistics.map (·.name)).Nodup) {b : Statistic}
    (h : e.base? name = some b) (delta : Float) :
    (increase name delta).run e =
      match e.increase name delta with
      | .ok next => .ok (b.baseValue + delta) next
      | .error error => .error error e := by
  have hname := (mem_of_base? h).2
  have hfind := h
  rw [base?, List.find?_eq_map_findFinIdx?_getElem] at hfind
  obtain ⟨i, hi, rfl⟩ := Option.map_eq_some_iff.1 hfind
  unfold increase Entity.increase
  rw [h, EStateM.run_bind, EStateM.run_get]
  dsimp only
  rw [hi]
  dsimp only
  -- the keyword comes first: if it is turned down, the base value is not reached
  rw [EStateM.run_bind, run_addKeyword]
  unfold Entity.addKeyword
  cases e.keywords.add name delta with
  | error error => rfl
  | ok keywords =>
    rw [← set_eq_map hnodup i hname fun s => s.raise delta]
    rfl

end Change

/-- Without its answer, a change writes what it writes with it. -/
theorem run_discard {α : Type} (x : Change α) (e : Entity) :
    (discard x).run e =
      match x.run e with
      | .ok _ next => .ok () next
      | .error error next => .error error next := by
  show (Functor.map (fun _ => ()) x).run e = _
  show EStateM.map _ x e = _
  unfold EStateM.map EStateM.run
  cases x e <;> rfl

/-- A change leaves behind what its operation makes of a character, or the character as it was. -/
theorem run_change (hnodup : (e.statistics.map (·.name)).Nodup) (op : Operation) :
    op.change.run e =
      match e.perform op with
      | .ok next => .ok () next
      | .error error => .error error e := by
  cases op with
  | register s => exact Change.run_register e s
  | increase name delta =>
    rw [Operation.change, run_discard]
    cases h : e.base? name with
    | none =>
      rw [Change.run_increase_of_none h, perform, Entity.increase, h]
    | some b =>
      rw [Change.run_increase_of_some hnodup h, perform]
      cases e.increase name delta <;> rfl
  | addKeyword name amount =>
    rw [Operation.change, run_discard, Change.run_addKeyword, perform]
    cases e.addKeyword name amount <;> rfl
  | attach enhancer => exact Change.run_attach e enhancer
  | detach name =>
    rw [Operation.change, run_discard, Change.run_detach, perform]

theorem changed_eq_step (hnodup : (e.statistics.map (·.name)).Nodup) (op : Operation) :
    e.changed op = History.step perform e op := by
  unfold changed History.step
  rw [run_change hnodup]
  cases e.perform op <;> rfl

theorem runInPlace_eq_run (hnodup : (e.statistics.map (·.name)).Nodup) (ops : List Operation) :
    e.runInPlace ops = e.run ops := by
  induction ops generalizing e with
  | nil => rfl
  | cons op ops ih =>
    have hstep : ((History.step perform e op).statistics.map (·.name)).Nodup :=
      names_nodup_run_of hnodup [op]
    show (e.changed op).runInPlace ops = (History.step perform e op).run ops
    rw [changed_eq_step hnodup, ih hstep]

/-! ### What is turned down -/

/-- The conditions under which a character turns an operation down. -/
def Operation.IsRefused (e : Entity) : Operation → Prop
  | .register s => (∃ t ∈ e.statistics, t.name = s.name) ∨ ¬s.baseValue.isFinite
  | .increase name delta => (¬∃ t ∈ e.statistics, t.name = name) ∨ ¬delta.isFinite ∨ delta < 0
  | .addKeyword _ amount => ¬amount.isFinite ∨ amount < 0
  | .attach enhancer => ∃ h ∈ e.enhancers, h.name = enhancer.name
  | .detach _ => False

theorem base?_eq_none_iff_forall : e.base? name = none ↔ ¬∃ s ∈ e.statistics, s.name = name := by
  rw [base?_eq_none_iff, List.mem_map]

theorem not_isAmount_iff {a : Float} : ¬isAmount a ↔ ¬a.isFinite ∨ a < 0 := by
  unfold isAmount
  by_cases hneg : a < 0 <;> simp [hneg]

theorem isAttached_iff : e.isAttached name ↔ ∃ h ∈ e.enhancers, h.name = name := by
  simp [isAttached]

theorem step_iff_not_isRefused : (∃ next, e.Step op next) ↔ ¬op.IsRefused e := by
  cases op with
  | register s =>
    rw [Operation.IsRefused, not_or, ← base?_eq_none_iff_forall, not_not]
    constructor
    · rintro ⟨next, h⟩
      cases h with
      | register hnew hfinite => exact ⟨hnew, hfinite⟩
    · rintro ⟨hnew, hfinite⟩
      exact ⟨_, .register hnew hfinite⟩
  | increase name delta =>
    rw [Operation.IsRefused, not_or, ← base?_eq_none_iff_forall, ← not_isAmount_iff, not_not]
    constructor
    · rintro ⟨next, h⟩
      cases h with
      | increase hname hdelta => exact ⟨Option.isSome_iff_ne_none.1 hname, hdelta⟩
    · rintro ⟨hname, hdelta⟩
      exact ⟨_, .increase (Option.isSome_iff_ne_none.2 hname) hdelta⟩
  | addKeyword name amount =>
    rw [Operation.IsRefused, ← not_isAmount_iff, not_not]
    constructor
    · rintro ⟨next, h⟩
      cases h with
      | addKeyword hamount => exact hamount
    · intro hamount
      exact ⟨_, .addKeyword hamount⟩
  | attach enhancer =>
    rw [Operation.IsRefused, ← isAttached_iff]
    constructor
    · rintro ⟨next, h⟩
      cases h with
      | attach hnew => exact hnew
    · intro hnew
      exact ⟨_, .attach hnew⟩
  | detach name => exact iff_of_true ⟨_, .detach⟩ not_false

/-! ### What is not touched -/

/-- The statistic that an operation is about. -/
def Operation.statistic? : Operation → Option String
  | .register s => some s.name
  | .increase name _ => some name
  | .addKeyword .. | .attach _ | .detach _ => none

/-- The keyword that an operation is about. -/
def Operation.keyword? : Operation → Option String
  | .register s => some s.name
  | .increase name _ | .addKeyword name _ => some name
  | .attach _ | .detach _ => none

/-- The enhancer that an operation is about. -/
def Operation.enhancer? : Operation → Option String
  | .attach enhancer => some enhancer.name
  | .detach name => some name
  | .register _ | .increase .. | .addKeyword .. => none

/-- All that an operation is not about is the same in two characters. -/
structure Operation.StaysWithin (op : Operation) (e next : Entity) : Prop where
  config : next.config = e.config
  statistics : next.statistics.filter (fun s => op.statistic? ≠ some s.name) =
    e.statistics.filter fun s => op.statistic? ≠ some s.name
  /-- This includes which keywords there are. -/
  keywords : ∀ name, op.keyword? ≠ some name →
    next.keywords.counts.get? name = e.keywords.counts.get? name
  enhancers : next.enhancers.filter (fun h => op.enhancer? ≠ some h.name) =
    e.enhancers.filter fun h => op.enhancer? ≠ some h.name

theorem get?_seed (c : KeywordCounter) {keyword : String} (h : name ≠ keyword) (value : Float) :
    (c.seed name value).counts.get? keyword = c.counts.get? keyword := by
  rw [KeywordCounter.seed, NameMap.get?_insert, if_neg (Ne.symm h)]

theorem filter_map_raise (l : List Statistic) (delta : Float) :
    (l.map fun s => if s.name == name then s.raise delta else s).filter
        (fun s => some name ≠ some s.name) =
      l.filter fun s => some name ≠ some s.name := by
  induction l with
  | nil => rfl
  | cons s l ih =>
    rw [List.map_cons]
    by_cases h : s.name = name
    · have hself : (s.name == name) = true := by simpa using h
      rw [if_pos hself, List.filter_cons_of_neg (by simp [Statistic.raise, h]),
        List.filter_cons_of_neg (by simp [h]), ih]
    · have hother : ¬(s.name == name) = true := by simpa using h
      rw [if_neg hother, List.filter_cons_of_pos (by simp [Ne.symm h]),
        List.filter_cons_of_pos (by simp [Ne.symm h]), ih]

theorem Step.staysWithin (h : e.Step op next) : op.StaysWithin e next := by
  cases h with
  | register =>
    refine ⟨rfl, ?_, fun keyword hkeyword => ?_, rfl⟩
    · simp [Operation.statistic?]
    · exact get?_seed _ (by simpa [Operation.keyword?] using hkeyword) _
  | increase =>
    refine ⟨rfl, filter_map_raise _ _, fun keyword hkeyword => ?_, rfl⟩
    exact get?_seed _ (by simpa [Operation.keyword?] using hkeyword) _
  | addKeyword =>
    refine ⟨rfl, rfl, fun keyword hkeyword => ?_, rfl⟩
    exact get?_seed _ (by simpa [Operation.keyword?] using hkeyword) _
  | attach =>
    refine ⟨rfl, rfl, fun _ _ => rfl, ?_⟩
    simp [Operation.enhancer?]
  | detach =>
    refine ⟨rfl, rfl, fun _ _ => rfl, filter_eraseP fun h _ hname => ?_⟩
    simp [Operation.enhancer?, eq_of_beq hname]

/-- A change is turned down without a trace, or it is accepted and touches only what it is about. -/
theorem change_cases (hnodup : (e.statistics.map (·.name)).Nodup) (op : Operation) :
    (op.IsRefused e ∧ ∃ error, op.change.run e = .error error e) ∨
      (¬op.IsRefused e ∧ ∃ next, op.change.run e = .ok () next ∧ op.StaysWithin e next) := by
  have hchange := run_change hnodup op
  cases hop : e.perform op with
  | ok next =>
    rw [hop] at hchange
    have hstep := perform_eq_ok_iff.1 hop
    exact .inr ⟨step_iff_not_isRefused.1 ⟨next, hstep⟩, next, hchange, hstep.staysWithin⟩
  | error error =>
    rw [hop] at hchange
    refine .inl ⟨?_, error, hchange⟩
    by_contra h
    obtain ⟨next, hstep⟩ := step_iff_not_isRefused.2 h
    cases hop.symm.trans (perform_eq_ok_iff.2 hstep)

/-- Whatever happened to a character before, a change is turned down exactly under its conditions.
Then it leaves the character as it was, and otherwise nothing changes that it is not about. -/
theorem change_all_or_nothing (config : EngineConfig) (ops : List Operation) (op : Operation) :
    let e := ({ config } : Entity).runInPlace ops
    ((∃ error next, op.change.run e = .error error next) ↔ op.IsRefused e) ∧
    (∀ error next, op.change.run e = .error error next → next = e) ∧
    ∀ next, op.change.run e = .ok () next → op.StaysWithin e next := by
  intro e
  have hnodup : (e.statistics.map (·.name)).Nodup := by
    have hrun : e = ({ config } : Entity).run ops :=
      runInPlace_eq_run (e := { config }) List.nodup_nil ops
    rw [hrun]
    exact names_nodup_run config ops
  rcases change_cases hnodup op with ⟨hrefused, error, h⟩ | ⟨haccepted, next, h, hwithin⟩
  · rw [h]
    refine ⟨iff_of_true ⟨error, e, rfl⟩ hrefused, ?_, ?_⟩
    · intro error' after heq
      cases heq
      rfl
    · intro after heq
      cases heq
  · rw [h]
    refine ⟨iff_of_false ?_ haccepted, ?_, ?_⟩
    · rintro ⟨error, after, heq⟩
      cases heq
    · intro error after heq
      cases heq
    · intro after heq
      cases heq
      exact hwithin

/-- A statistic, and a keyword that is none. -/
def warrior : List Operation :=
  [.register { name := "STRENGTH", baseValue := 12 }, .addKeyword "LEVEL" 1]

theorem change_all_or_nothing_warrior :
    (∃ error, (Operation.increase "STRENGTH" (-1)).change.run (({} : Entity).runInPlace warrior) =
      .error error (({} : Entity).runInPlace warrior)) ∧
    ∃ next, (Operation.increase "STRENGTH" 3).change.run (({} : Entity).runInPlace warrior) =
      .ok () next ∧
      next.keywords.counts.get? "LEVEL" =
        (({} : Entity).runInPlace warrior).keywords.counts.get? "LEVEL" := by
  constructor
  · obtain ⟨hrefused, hsame, -⟩ := change_all_or_nothing {} warrior (.increase "STRENGTH" (-1))
    obtain ⟨error, next, h⟩ := hrefused.2 (.inr (.inr (by decide +kernel)))
    obtain rfl := hsame error next h
    exact ⟨error, h⟩
  · obtain ⟨-, -, hwithin⟩ := change_all_or_nothing {} warrior (.increase "STRENGTH" 3)
    refine ⟨_, rfl, (hwithin _ rfl).keywords "LEVEL" (by decide)⟩

end CharacterSheet.Entity
