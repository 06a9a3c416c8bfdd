import CharacterSheet.Proofs.Binary64.Bounds
import CharacterSheet.Proofs.Bonus.StoredNumbers
import CharacterSheet.Proofs.Entity.StoredNumbers

/-!
# When stored numbers stay finite

Each number is checked when it comes in, but what it makes of the numbers that are stored is not:
two large numbers that are finite may add up to an infinity. Characters and graphs of bonuses are
safe from it as long as what they accept is small and not too much.

* `Entity.stores_within`, `BonusGraph.stores_within` — how large the stored numbers can be;
* `stores_finite` — they are finite as long as the accepted numbers fit together.
-/

namespace CharacterSheet

open Binary64

variable {k : Nat}

namespace Entity

/-- A character stores nothing that is larger than the numbers it accepted can be together. -/
theorem stores_within (config : EngineConfig) (ops : List Operation)
    (h : FitUnder k ((History.accepted perform { config } ops).filterMap Operation.number?)) :
    (({ config } : Entity).run ops).Stores (WithinTotal k
      ((History.accepted perform { config } ops).filterMap Operation.number?)) := by
  refine History.accepted_induction (P := fun done e =>
    FitUnder k (done.filterMap Operation.number?) →
      e.Stores (WithinTotal k (done.filterMap Operation.number?))) ?_ ?_ ops h
  · intro done e op next hop ih hfit
    have hop := perform_eq_ok_iff.1 hop
    rw [History.filterMap_concat] at hfit ⊢
    refine (ih hfit.of_append).step hop (fun x hx => hx.append _) (fun a ha => ?_)
      fun a ha x hx => ?_
    all_goals
      rw [ha] at hfit ⊢
      have hfinite := hop.isFinite_of_number? ha
    · exact hfit.within_last hfinite
    · exact hfit.within_add hfinite hx
  · exact fun _ => stores_empty config isWithin_zero

end Entity

namespace BonusGraph

/-- A graph stores nothing that is larger than the numbers it accepted can be together. -/
theorem stores_within (catalog : BonusCatalog) (config : EngineConfig) (ops : List Operation)
    (h : FitUnder k ((History.accepted perform (empty catalog config) ops).filterMap
      (Operation.number? catalog))) :
    ((empty catalog config).run ops).Stores (WithinTotal k
      ((History.accepted perform (empty catalog config) ops).filterMap
        (Operation.number? catalog))) := by
  refine (History.accepted_induction (P := fun done g => g.catalog = catalog ∧
    (FitUnder k (done.filterMap (Operation.number? catalog)) →
      g.Stores (WithinTotal k (done.filterMap (Operation.number? catalog))))) ?_ ?_ ops).2 h
  · rintro done g op next hop ⟨rfl, ih⟩
    refine ⟨catalog_perform hop, fun hfit => ?_⟩
    rw [History.filterMap_concat] at hfit ⊢
    refine (ih hfit.of_append).perform hop isWithin_zero (fun x hx => hx.append _)
      (fun a ha hfinite => ?_) fun a ha hfinite x hx => ?_
    all_goals rw [ha] at hfit ⊢
    · exact hfit.within_last hfinite
    · exact hfit.within_add hfinite hx
  · exact ⟨rfl, fun _ => stores_empty catalog config⟩

end BonusGraph

/-- The numbers that characters and graphs of bonuses store are finite, as long as those that they
accept are small and few enough to fit together. -/
theorem stores_finite (k : Nat) :
    (∀ config ops,
      FitUnder k ((History.accepted Entity.perform { config } ops).filterMap
        Entity.Operation.number?) →
      (({ config } : Entity).run ops).Stores fun x => x.isFinite) ∧
    ∀ catalog config ops,
      FitUnder k ((History.accepted BonusGraph.perform (.empty catalog config) ops).filterMap
        (BonusGraph.Operation.number? catalog)) →
      ((BonusGraph.empty catalog config).run ops).Stores fun x => x.isFinite := by
  constructor
  · intro config ops h
    have hwithin := Entity.stores_within config ops h
    exact ⟨fun keyword => (hwithin.count keyword).1, fun s hs => (hwithin.baseValue s hs).1⟩
  · intro catalog config ops h
    exact (BonusGraph.stores_within catalog config ops h).mono fun _ hx => hx.1

theorem stores_finite_small :
    (({} : Entity).run [.register { name := "STRENGTH", baseValue := 12 }, .addKeyword "LEVEL" 1,
      .increase "STRENGTH" 3]).Stores (fun x => x.isFinite) ∧
    ((BonusGraph.empty .empty).run [.insert "base" 2 .identity, .insert "top" (-15) .identity,
      .link "base" "top"]).Stores fun x => x.isFinite :=
  ⟨(stores_finite 4).1 {} _ ⟨by decide +kernel, by decide +kernel, by decide +kernel⟩,
    (stores_finite 4).2 .empty {} _ ⟨by decide +kernel, by decide +kernel, by decide +kernel⟩⟩

/-- Two counts of nearly the largest double add up to an infinity. -/
theorem count_overflows : ¬∀ (config : EngineConfig) (ops : List Entity.Operation),
    (({ config } : Entity).run ops).Stores fun x => x.isFinite := by
  intro h
  have hfinite := (h {} [.addKeyword "POWER" 1.7e308, .addKeyword "POWER" 1.7e308]).count "POWER"
  revert hfinite
  decide +kernel

end CharacterSheet
