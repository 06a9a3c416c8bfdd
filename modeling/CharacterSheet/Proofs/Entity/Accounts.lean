import CharacterSheet.Proofs.Entity.Steps

/-!
# A character is the sum of what it accepted

Nothing that was accepted is lost, counted twice or put under another name, in whatever order the
operations came and however many were turned down between them.

* `Entity.stillAttached` — the enhancers that a sequence of operations leaves attached;
* `Entity.Accounts` — each part of a character is what a sequence of operations adds up to;
* `Entity.Accounts.step` — one more operation is accounted for;
* `Entity.run_accounts` — a character accounts for all operations that it accepted.
-/

namespace CharacterSheet.Entity

/-- The enhancer that an operation attaches. -/
def Operation.attached? : Operation → Option Enhancer
  | .attach enhancer => some enhancer
  | _ => none

/-- The enhancers that are attached and not detached later, in the order of their attachment. -/
def stillAttached : List Operation → List Enhancer
  | [] => []
  | .attach enhancer :: later =>
    if .detach enhancer.name ∈ later then stillAttached later
    else enhancer :: stillAttached later
  | _ :: later => stillAttached later

/-- The parts of a character are what the operations add up to. -/
structure Accounts (e : Entity) (done : List Operation) : Prop where
  /-- A count is what was added under its name, from left to right. -/
  count : ∀ keyword,
    e.keywords.count keyword = (done.filterMap (·.amount? keyword)).foldl (· + ·) 0
  /-- A base value is the registered one and all that it was raised by later, from left to right. -/
  base? : ∀ before s after, done = before ++ .register s :: after → e.base? s.name =
    some { s with baseValue := (after.filterMap (·.delta? s.name)).foldl (· + ·) s.baseValue }
  /-- The statistics are those that were registered, in this order. -/
  names : e.statistics.map (·.name) = (done.filterMap Operation.registered?).map (·.name)
  names_nodup : (e.statistics.map (·.name)).Nodup
  enhancers : e.enhancers = stillAttached done
  enhancers_nodup : (e.enhancers.map (·.name)).Nodup

variable {e next : Entity} {op : Operation} {done : List Operation}

theorem stillAttached_concat (done : List Operation) (op : Operation) :
    stillAttached (done ++ [op]) =
      (stillAttached done).filter (fun h => op ≠ .detach h.name) ++ op.attached?.toList := by
  induction done with
  | nil => cases op <;> rfl
  | cons first later ih =>
    cases first with
    | attach enhancer =>
      rw [List.cons_append, stillAttached, stillAttached, ih]
      by_cases hlater : .detach enhancer.name ∈ later
      · simp [hlater]
      · by_cases hop : op = .detach enhancer.name
        · simp [hlater, hop]
        · simp [hlater, hop, Ne.symm hop]
    | register | increase | addKeyword | detach => simpa [stillAttached] using ih

theorem eraseP_eq_filter {l : List Enhancer} (hl : (l.map (·.name)).Nodup) (name : String) :
    l.eraseP (fun h => h.name == name) =
      l.filter fun h => Operation.detach name ≠ .detach h.name := by
  induction l with
  | nil => rfl
  | cons first rest ih =>
    rw [List.map_cons, List.nodup_cons] at hl
    by_cases h : first.name = name
    · have hrest : ∀ g ∈ rest, name ≠ g.name := fun g hg heq =>
        hl.1 (h.trans heq ▸ List.mem_map_of_mem hg)
      have hself : rest.filter (fun h => Operation.detach name ≠ .detach h.name) = rest :=
        List.filter_eq_self.2 (by simpa using hrest)
      rw [List.eraseP_cons_of_pos (by simpa using h), List.filter_cons_of_neg (by simp [h]), hself]
    · simp [h, Ne.symm h, ih hl.2]

theorem Step.enhancers_eq (h : e.Step op next) (hnodup : (e.enhancers.map (·.name)).Nodup) :
    next.enhancers =
      e.enhancers.filter (fun h => op ≠ .detach h.name) ++ op.attached?.toList := by
  cases h with
  | register | increase | addKeyword | attach =>
    rw [List.filter_eq_self.2 (by simp)]
    simp [Operation.attached?]
  | @detach name =>
    rw [Entity.detach, eraseP_eq_filter hnodup name]
    exact (List.append_nil _).symm

theorem accounts_empty (config : EngineConfig) : Accounts { config } [] where
  count _ := rfl
  base? before s after h := by simp at h
  names := rfl
  names_nodup := List.nodup_nil
  enhancers := rfl
  enhancers_nodup := List.nodup_nil

/-- What a character accounts for, and one more operation that it accepts, is accounted for. -/
theorem Accounts.step (h : e.Accounts done) (hop : e.Step op next) :
    next.Accounts (done ++ [op]) where
  count keyword := by
    rw [hop.count_eq, h.count, History.filterMap_concat, List.foldl_append]
    cases op.amount? keyword <;> rfl
  base? before s after heq := by
    -- the registration is the last operation, or it is one of those that were accounted for
    rcases List.eq_nil_or_concat after with rfl | ⟨after, last, rfl⟩
    · obtain ⟨-, hlast⟩ := List.append_inj' heq rfl
      obtain rfl := List.singleton_inj.1 hlast
      exact hop.base?_of_register
    · rw [List.concat_eq_append, ← List.cons_append, ← List.append_assoc] at heq
      obtain ⟨hdone, hlast⟩ := List.append_inj' heq rfl
      obtain rfl := List.singleton_inj.1 hlast
      rw [hop.base?_of_some (h.base? before s after hdone), List.concat_eq_append,
        History.filterMap_concat, List.foldl_append]
      cases op.delta? s.name <;> rfl
  names := by
    rw [hop.names_eq, h.names, History.filterMap_concat, List.map_append]
  names_nodup := hop.names_nodup h.names_nodup
  enhancers := by rw [hop.enhancers_eq h.enhancers_nodup, h.enhancers, stillAttached_concat]
  enhancers_nodup := by
    cases hop with
    | register | increase | addKeyword => exact h.enhancers_nodup
    | @attach enhancer hnew =>
      rw [List.map_append]
      refine List.nodup_append.2 ⟨h.enhancers_nodup, by simp, ?_⟩
      rintro name hname _ hlast rfl
      obtain rfl := List.mem_singleton.1 hlast
      obtain ⟨other, hother, heq⟩ := List.mem_map.1 hname
      exact hnew (List.any_eq_true.2 ⟨other, hother, beq_iff_eq.2 heq⟩)
    | detach => exact h.enhancers_nodup.sublist (List.eraseP_sublist.map _)

/-- However it came about, a character accounts for exactly the operations that it accepted. -/
theorem run_accounts (config : EngineConfig) (ops : List Operation) :
    (({ config } : Entity).run ops).Accounts (History.accepted perform { config } ops) :=
  History.accepted_induction (P := fun done e => Accounts e done)
    (fun _ _ _ _ hop h => h.step (perform_eq_ok_iff.1 hop)) (accounts_empty config) ops

end CharacterSheet.Entity
