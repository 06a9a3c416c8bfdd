import CharacterSheet.Proofs.Binary64.Levels
import CharacterSheet.Proofs.Entity.Steps

/-!
# The numbers of a character

A character stores base values and counts. An operation stores a finite number as it is or adds one
to what is stored, and none of this makes a NaN.

* `Entity.Stores`, `Entity.Stores.step` — what all stored numbers have in common, before and after
  an operation;
* `Entity.stores_number` — no stored number is NaN;
* `Entity.count_le_or_lowered` — a count is lowered only by the base value of a new statistic.
-/

namespace CharacterSheet

theorem isFinite_of_isAmount {a : Float} (h : isAmount a) : a.isFinite :=
  (Bool.and_eq_true_iff.1 h).1

theorem not_neg_of_isAmount {a : Float} (h : isAmount a) : ¬a < 0 := by
  simpa using (Bool.and_eq_true_iff.1 h).2

namespace Entity

/-- All numbers that a character stores have a property. -/
structure Stores (P : Float → Prop) (e : Entity) : Prop where
  count : ∀ keyword, P (e.keywords.count keyword)
  baseValue : ∀ s ∈ e.statistics, P s.baseValue

/-- The number that an accepted operation stores or adds to what is stored. -/
def Operation.number? : Operation → Option Float
  | .register s => some s.baseValue
  | .increase _ delta => some delta
  | .addKeyword _ amount => some amount
  | .attach _ | .detach _ => none

variable {P Q : Float → Prop} {e next : Entity} {op : Operation} {a : Float}

theorem Operation.number?_of_amount? {keyword : String} (h : op.amount? keyword = some a) :
    op.number? = some a := by
  cases op <;> simp_all [amount?, number?]

theorem Step.isFinite_of_number? (h : e.Step op next) (ha : op.number? = some a) :
    a.isFinite := by
  cases h with
  | register _ hfinite =>
    cases ha
    exact hfinite
  | increase _ hdelta =>
    cases ha
    exact isFinite_of_isAmount hdelta
  | addKeyword hamount =>
    cases ha
    exact isFinite_of_isAmount hamount
  | attach | detach => cases ha

/-- Stored numbers are kept, are new, or are raised by the number of the operation. -/
theorem Stores.step (h : e.Stores P) (hop : e.Step op next) (hkeep : ∀ x, P x → Q x)
    (hnew : ∀ a, op.number? = some a → Q a)
    (hadd : ∀ a, op.number? = some a → ∀ x, P x → Q (x + a)) : next.Stores Q where
  count keyword := by
    rw [hop.count_eq]
    cases hamount : op.amount? keyword with
    | none => exact hkeep _ (h.count keyword)
    | some a => exact hadd a (op.number?_of_amount? hamount) _ (h.count keyword)
  baseValue s hs := by
    cases hop with
    | @register new =>
      rcases List.mem_append.1 hs with hs | hs
      · exact hkeep _ (h.baseValue s hs)
      · obtain rfl := List.mem_singleton.1 hs
        exact hnew _ rfl
    | @increase name delta =>
      obtain ⟨t, ht, rfl⟩ := List.mem_map.1 hs
      split
      · exact hadd delta rfl _ (h.baseValue t ht)
      · exact hkeep _ (h.baseValue t ht)
    | addKeyword | attach | detach => exact hkeep _ (h.baseValue s hs)

theorem stores_empty (config : EngineConfig) (h0 : P 0) : Stores P { config } where
  count _ := h0
  baseValue s hs := by cases hs

/-- No number that a character stores is NaN. -/
theorem stores_number (config : EngineConfig) (ops : List Operation) :
    (({ config } : Entity).run ops).Stores fun x => x.isNaN = false := by
  refine History.run_induction (fun e op next hop h => ?_) (stores_empty config (by decide)) ops
  have hop := perform_eq_ok_iff.1 hop
  exact h.step hop (fun _ hx => hx)
    (fun a ha => Binary64.isNaN_of_isFinite (hop.isFinite_of_number? ha))
    fun a ha x hx => Binary64.isNaN_add hx (hop.isFinite_of_number? ha)

/-! ### Counts rise -/

/-- Only a new statistic brings a number that may be below zero. -/
theorem Step.eq_register_of_neg (h : e.Step op next) (ha : op.number? = some a) (hneg : a < 0) :
    ∃ s, op = .register s ∧ s.baseValue = a := by
  cases h with
  | @register s => exact ⟨s, rfl, Option.some_inj.1 ha⟩
  | increase _ hdelta =>
    cases ha
    exact absurd hneg (not_neg_of_isAmount hdelta)
  | addKeyword hamount =>
    cases ha
    exact absurd hneg (not_neg_of_isAmount hamount)
  | attach | detach => cases ha

/-- An operation keeps or raises every count, unless it registers a statistic with a base value
below zero, which lowers the count of its name by as much. -/
theorem count_le_or_lowered (config : EngineConfig) (ops : List Operation) (op : Operation)
    (keyword : String) :
    let e := ({ config } : Entity).run ops
    let next := History.step perform e op
    e.keywords.count keyword ≤ next.keywords.count keyword ∨
      ∃ s, op = .register s ∧ s.name = keyword ∧ s.baseValue < 0 ∧ e.perform op = .ok next ∧
        next.keywords.count keyword = e.keywords.count keyword + s.baseValue := by
  intro e next
  have hnumber : (e.keywords.count keyword).isNaN = false :=
    (stores_number config ops).count keyword
  cases hop : e.perform op with
  | error error =>
    have hnext : next = e := History.step_of_error hop
    rw [hnext]
    exact .inl (Binary64.le_self hnumber)
  | ok after =>
    have hnext : next = after := History.step_of_ok hop
    have hstep := perform_eq_ok_iff.1 hop
    rw [hnext, hstep.count_eq]
    cases hamount : op.amount? keyword with
    | none => exact .inl (Binary64.le_self hnumber)
    | some a =>
      have ha := op.number?_of_amount? hamount
      by_cases hneg : a < 0
      · obtain ⟨s, rfl, rfl⟩ := hstep.eq_register_of_neg ha hneg
        have hname : s.name = keyword := by
          by_contra h
          rw [Operation.amount?, if_neg h] at hamount
          cases hamount
        exact .inr ⟨s, rfl, hname, hneg, rfl, rfl⟩
      · exact .inl (Binary64.le_add_of_not_neg hnumber (hstep.isFinite_of_number? ha) hneg)

/-- A count of five falls to two when a statistic of that name is registered at minus three. -/
theorem count_falls : ¬∀ (config : EngineConfig) (ops : List Operation) (op : Operation)
    (keyword : String),
    (({ config } : Entity).run ops).keywords.count keyword ≤
      (History.step perform (({ config } : Entity).run ops) op).keywords.count keyword := by
  intro h
  have hle := h {} [.addKeyword "SPEED" 5] (.register { name := "SPEED", baseValue := -3 }) "SPEED"
  revert hle
  decide +kernel

end Entity

end CharacterSheet
