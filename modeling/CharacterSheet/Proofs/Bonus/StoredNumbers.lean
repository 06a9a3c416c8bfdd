import CharacterSheet.Proofs.Binary64.Levels
import CharacterSheet.Proofs.Bonus.Edges

/-!
# The numbers of a graph of bonuses

A bonus stores its own value. Wiring touches no value, and a bonus that is only mentioned stores
zero, so that values come from the amounts that operations bring.

* `BonusGraph.Stores`, `BonusGraph.Stores.perform` — what all stored values have in common, before
  and after an operation;
* `BonusGraph.stores_number` — no stored value is NaN.
-/

namespace CharacterSheet.BonusGraph

/-- The own values of all bonuses have a property. -/
def Stores (P : Float → Prop) (g : BonusGraph) : Prop :=
  ∀ name bonus, g.bonus? name = some bonus → P bonus.value

/-- The number that an accepted operation stores or adds to what is stored. Where none is stated,
the catalog's value counts, or else zero. -/
def Operation.number? (catalog : BonusCatalog) : Operation → Option Float
  | .add name value => (catalog.get? name).map fun metadata => (value.or metadata.value).getD 0
  | .insert _ value _ => some value
  | .link .. => none

variable {P Q : Float → Prop} {g next : BonusGraph} {op : Operation} {a : Float}
  {name source target : String}

namespace Stores

theorem mono (h : g.Stores P) (hPQ : ∀ x, P x → Q x) : g.Stores Q :=
  fun name bonus hbonus => hPQ _ (h name bonus hbonus)

theorem insert (h : g.Stores P) {bonus : Bonus} (hbonus : P bonus.value) :
    Stores P { g with bonuses := g.bonuses.insert name bonus } := by
  intro other b hb
  rw [bonus?_insert] at hb
  split at hb
  · cases hb
    exact hbonus
  · exact h other b hb

theorem adjust (h : g.Stores P) (hkeep : ∀ x, P x → Q x) {f : Bonus → Bonus}
    (hf : ∀ bonus, P bonus.value → Q (f bonus).value) : (g.adjust name f).Stores Q := by
  intro other b hb
  rw [bonus?_adjust] at hb
  split at hb
  · obtain ⟨bonus, hbonus, rfl⟩ := Option.map_eq_some_iff.1 hb
    exact hf bonus (h name bonus hbonus)
  · exact hkeep _ (h other b hb)

theorem ensure (h : g.Stores P) (h0 : P 0) (name : String) : (g.ensure name).Stores P := by
  unfold BonusGraph.ensure
  split
  · exact h
  · exact h.insert h0

theorem addEdge (h : g.Stores P) (source target : String) : (g.addEdge source target).Stores P := by
  refine h.adjust (fun _ hx => hx) fun bonus hbonus => ?_
  unfold Bonus.addSource
  split
  · exact hbonus
  · exact hbonus

theorem wire (h : g.Stores P) (h0 : P 0) (name : String) (metadata : BonusMetadata) :
    (g.wire name metadata).Stores P := by
  unfold BonusGraph.wire
  refine adjust (P := P) ?_ (fun _ hx => hx) fun _ hx => hx
  refine List.foldlRecOn (motive := Stores P) _ _ ?_ fun g hg source _ =>
    (hg.ensure h0 source).addEdge source name
  exact List.foldlRecOn (motive := Stores P) _ _ h fun g hg target _ =>
    (hg.ensure h0 target).addEdge name target

/-- Stored values are kept, are new, or are raised by the number of the operation. -/
theorem perform (h : g.Stores P) (hop : g.perform op = .ok next) (h0 : P 0)
    (hkeep : ∀ x, P x → Q x)
    (hnew : ∀ a, op.number? g.catalog = some a → a.isFinite → Q a)
    (hadd : ∀ a, op.number? g.catalog = some a → a.isFinite → ∀ x, P x → Q (x + a)) :
    next.Stores Q := by
  cases op with
  | add name value =>
    simp only [BonusGraph.perform, BonusGraph.add] at hop
    split at hop
    · cases hop
    next metadata hmetadata =>
    split at hop
    · cases hop
    split at hop
    · cases hop
    next hfinite =>
    have hnumber : Operation.number? g.catalog (.add name value) =
        some ((value.or metadata.value).getD 0) := by
      rw [Operation.number?, hmetadata, Option.map_some]
    have hraised : Stores Q ((g.ensure name).adjust name fun b =>
        { b with value := b.value + (value.or metadata.value).getD 0 }) :=
      (h.ensure h0 name).adjust hkeep fun bonus => hadd _ hnumber (by simpa using hfinite) _
    cases hop
    split
    · split
      · exact hraised
      · exact hraised.wire (hkeep 0 h0) name metadata
    · exact hraised
  | insert name value modifier =>
    simp only [BonusGraph.perform, BonusGraph.insert] at hop
    split at hop
    · cases hop
    split at hop
    · cases hop
    next hfinite =>
    cases hop
    exact (h.mono hkeep).insert (hnew value rfl (by simpa using hfinite))
  | link source target =>
    simp only [BonusGraph.perform, link] at hop
    split at hop
    · cases hop
    split at hop
    · cases hop
    cases hop
    exact (h.mono hkeep).addEdge source target

end Stores

theorem stores_empty (catalog : BonusCatalog) (config : EngineConfig) :
    (empty catalog config).Stores P := by
  intro name bonus hbonus
  cases hbonus

/-- No value that a graph stores is NaN. -/
theorem stores_number (catalog : BonusCatalog) (config : EngineConfig) (ops : List Operation) :
    ((empty catalog config).run ops).Stores fun x => x.isNaN = false := by
  refine History.run_induction (fun g op next hop h => ?_) (stores_empty catalog config) ops
  exact h.perform hop (by decide) (fun _ hx => hx)
    (fun a _ hfinite => Binary64.isNaN_of_isFinite hfinite)
    fun a _ hfinite x hx => Binary64.isNaN_add hx hfinite

end CharacterSheet.BonusGraph
