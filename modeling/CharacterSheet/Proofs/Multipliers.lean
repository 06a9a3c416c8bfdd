import CharacterSheet.Proofs.Binary64.Product
import CharacterSheet.Proofs.Interleaving

/-!
# What multiplies a statistic

Multiplicative properties are summed, and what is below one counts as one, so that they never lower
a statistic that is not below zero. Only their sum is not looked at: it may be an infinity, and
nothing taken infinitely often has no value.

* `Binary64.greater_one_cases` — the larger of one and a number;
* `le_combined`, `isNaN_combined` — a base value is not lowered, or nothing is left of it;
* `computeInTurn_of_multiplicative` — a statistic with multiplicative properties only;
* `multiplied_le_iff` — it is at least its base value, unless it has no value at all;
* `multiplied_may_vanish` — a statistic at zero that is lost.
-/

namespace CharacterSheet

open Binary64

variable {properties : List Property} {s : Statistic} {x sum : Float}

namespace Binary64

/-- The larger of one and a number is a finite number from one on, or it is the infinity that was
given. A NaN counts as one. -/
theorem greater_one_cases (sum : Float) :
    (greater 1 sum).isFinite ∧ 1 ≤ greater 1 sum ∧ sum ≠ infinity false ∨
      greater 1 sum = infinity false ∧ sum = infinity false := by
  have hone : (1 : Float).isNaN = false := by decide
  by_cases hlt : 1 < sum
  · have hgreater : greater 1 sum = sum := by
      rw [greater, decide_eq_true hlt, Bool.true_or, if_pos rfl]
    have hle : 1 ≤ sum := le_of_lt hlt
    rw [hgreater]
    rcases isFinite_or_eq_infinity (isNaN_of_le hle).2 with hfinite | ⟨negative, rfl⟩
    · exact .inl ⟨hfinite, hle, fun hsum => absurd (hsum ▸ hfinite) (by decide +kernel)⟩
    · cases negative with
      | false => exact .inr ⟨rfl, rfl⟩
      | true => exact absurd hlt (by decide +kernel)
  · have hgreater : greater 1 sum = 1 := by
      rw [greater, decide_eq_false hlt, Bool.false_or, hone, if_neg (by decide)]
    rw [hgreater]
    refine .inl ⟨by decide, le_self hone, ?_⟩
    rintro rfl
    exact hlt (by decide +kernel)

end Binary64

/-! ### The multiplied value -/

theorem le_multiplied (hx : x.isFinite) (h0 : 0 ≤ x) (h : 0 < x ∨ sum ≠ infinity false) :
    x ≤ x * greater 1 sum := by
  rcases greater_one_cases sum with ⟨hfinite, hone, -⟩ | ⟨hgreater, hsum⟩
  · exact le_mul_of_one_le hx hfinite h0 hone
  · have hnumber := isNaN_of_isFinite hx
    have hpos := (lt_iff_level (by decide) hnumber).1 (h.resolve_right (not_not_intro hsum))
    have h0x := level_nonneg hnumber h0
    have hbits : 0 < lowBits x := by
      rw [level_of_nonneg h0x] at hpos
      exact Int.ofNat_lt.1 hpos
    have hsign : isNegative x = false :=
      (isNegative_eq_false_or h0x).resolve_right hbits.ne'
    rw [hgreater, mul_infinity hx hbits, hsign, le_iff_level hnumber (by decide), infinity,
      level_ofSignBits le_rfl, level_of_nonneg h0x]
    exact Int.ofNat_le.2 (lowBits_lt_of_isFinite hx).le

/-- The other kinds have nothing to add. -/
theorem le_combined (hx : x.isFinite) (h0 : 0 ≤ x) (h : 0 < x ∨ sum ≠ infinity false) :
    x ≤ x * greater 1 sum + 0 + 0 := by
  have hzero {y : Float} (hy : x ≤ y) : x ≤ y + 0 :=
    le_of_le_of_le hy (le_add_of_not_neg (isNaN_of_le hy).2 (by decide) (by decide))
  exact hzero (hzero (le_multiplied hx h0 h))

theorem isNaN_combined (hx : x.isFinite) (h0 : 0 ≤ x) (h : ¬(0 < x ∨ sum ≠ infinity false)) :
    (x * greater 1 sum + 0 + 0).isNaN := by
  obtain ⟨hpos, hsum⟩ := not_or.1 h
  have hnumber := isNaN_of_isFinite hx
  have hbits : lowBits x = 0 := by
    rw [lt_iff_level (by decide) hnumber, level_of_nonneg (level_nonneg hnumber h0), not_lt]
      at hpos
    exact Nat.le_zero.1 (Int.ofNat_le.1 hpos)
  rcases greater_one_cases sum with ⟨-, -, hne⟩ | ⟨hgreater, -⟩
  · exact absurd hne hsum
  · rw [hgreater]
    exact isNaN_add_left (isNaN_add_left (isNaN_mul_infinity hx hbits false) 0) 0

/-! ### A statistic that is multiplied -/

theorem magnitudes_of_multiplicative (h : ∀ p ∈ properties, p.factor = .multiplicative)
    (factor : Factor) (keywords : KeywordCounts) :
    Aggregates.magnitudes factor properties keywords =
      if factor = .multiplicative then properties.map (·.effectiveMagnitude keywords) else [] := by
  unfold Aggregates.magnitudes
  split
  · next hfactor =>
    rw [List.filter_eq_self.2 fun p hp => beq_iff_eq.2 ((h p hp).trans hfactor.symm)]
  · next hfactor =>
    have hother (p : Property) (hp : p ∈ properties) : ¬(p.factor == factor) = true :=
      fun heq => hfactor ((beq_iff_eq.1 heq).symm.trans (h p hp))
    rw [List.filter_eq_nil_iff.2 hother, List.map_nil]

/-- Multiplicative properties alone give a statistic the value that their sum makes of its base
value. -/
theorem computeInTurn_of_multiplicative (h : ∀ p ∈ properties, p.factor = .multiplicative)
    (s : Statistic) (keywords : KeywordCounts) (limits : ParseLimits) :
    ActualStatistic.computeInTurn s properties keywords limits =
      .ok ⟨s.name, s.baseValue, s.rounding.apply (s.baseValue *
        greater 1 (runningSum (properties.map (·.effectiveMagnitude keywords))) + 0 + 0)⟩ := by
  have hcustom : properties.filter Property.isCustom = [] := by
    refine List.filter_eq_nil_iff.2 fun p hp => ?_
    rw [Property.isCustom, h p hp]
    decide
  have hnone (factor : Factor) (hfactor : factor ≠ .multiplicative) :
      Aggregates.magnitudes factor properties keywords = [] := by
    rw [magnitudes_of_multiplicative h, if_neg hfactor]
  have hadditions : runningSum [] = 0 := rfl
  have hstack : diminishingStack [] = 0 := by decide +kernel
  rw [ActualStatistic.computeInTurn_eq_compute, ActualStatistic.compute, hcustom]
  unfold Aggregates.combined Aggregates.collect
  rw [hnone .additive (by decide), hnone .additiveMultiplicatively (by decide),
    magnitudes_of_multiplicative h, if_pos rfl, hadditions, hstack]
  rfl

/-- A statistic that is not rounded, whose finite base value is not below zero and that is modified
by multiplicative properties only, can always be worked out. It is at least its base value. Only if
that is zero and the magnitudes add up to an infinity, it is a NaN. -/
theorem multiplied_le_iff (hrounding : s.rounding = .exact) (hfinite : s.baseValue.isFinite)
    (h0 : 0 ≤ s.baseValue) (hfactor : ∀ p ∈ properties, p.factor = .multiplicative)
    (keywords : KeywordCounts) (limits : ParseLimits) :
    ∃ a, ActualStatistic.computeInTurn s properties keywords limits = .ok a ∧
      (s.baseValue ≤ a.actualValue ↔ 0 < s.baseValue ∨
        runningSum (properties.map (·.effectiveMagnitude keywords)) ≠ infinity false) ∧
      (a.actualValue.isNaN ↔ ¬s.baseValue ≤ a.actualValue) := by
  refine ⟨_, computeInTurn_of_multiplicative hfactor s keywords limits, ?_⟩
  rw [hrounding, Rounding.apply]
  by_cases h : 0 < s.baseValue ∨
    runningSum (properties.map (·.effectiveMagnitude keywords)) ≠ infinity false
  · have hle := le_combined hfinite h0 h
    refine ⟨iff_of_true hle h, iff_of_false ?_ (not_not_intro hle)⟩
    rw [(isNaN_of_le hle).2]
    exact Bool.false_ne_true
  · have hnan := isNaN_combined hfinite h0 h
    have hle : ¬s.baseValue ≤ s.baseValue * greater 1
        (runningSum (properties.map (·.effectiveMagnitude keywords))) + 0 + 0 :=
      fun hle => absurd (hnan.symm.trans (isNaN_of_le hle).2) (by decide)
    exact ⟨iff_of_false hle h, iff_of_true hnan hle⟩

/-- A strength of three under a curse and a rage. -/
def strength : Statistic := { name := "STRENGTH", baseValue := 3, rounding := .exact }

def curseAndRage : List Property :=
  [{ statistic := "STRENGTH", value := -0.75, factor := .multiplicative },
    { statistic := "STRENGTH", value := 0.5, factor := .multiplicative, dependsOn := some "RAGE" }]

theorem multiplied_strength : ∃ a,
    ActualStatistic.computeInTurn strength curseAndRage (fun _ => 4) {} = .ok a ∧
      3 ≤ a.actualValue := by
  have hfactor : ∀ p ∈ curseAndRage, p.factor = .multiplicative := by decide
  obtain ⟨a, ha, hle, -⟩ := multiplied_le_iff (s := strength) rfl (by decide) (by decide +kernel)
    hfactor (fun _ => 4) {}
  exact ⟨a, ha, hle.2 (.inl (by decide +kernel))⟩

/-- Two multipliers that are nearly the largest double add up to an infinity, and nothing is left of
a statistic at zero. -/
theorem multiplied_may_vanish : ¬∀ (s : Statistic) (properties : List Property)
    (keywords : KeywordCounts) (limits : ParseLimits),
    s.rounding = .exact → s.baseValue.isFinite → 0 ≤ s.baseValue →
    (∀ name, (keywords name).isFinite) →
    (∀ p ∈ properties, p.factor = .multiplicative ∧ p.value.isFinite) →
    ∃ a, ActualStatistic.computeInTurn s properties keywords limits = .ok a ∧
      s.baseValue ≤ a.actualValue ∧ a.actualValue.isNaN = false := by
  intro h
  obtain ⟨a, ha, hle, -⟩ := h { name := "POWER", baseValue := 0, rounding := .exact }
    [{ statistic := "POWER", value := 1.7e308, factor := .multiplicative },
      { statistic := "POWER", value := 1.7e308, factor := .multiplicative }] (fun _ => 0) {} rfl
    (by decide) (by decide +kernel) (fun _ => by decide) (by decide +kernel)
  rw [computeInTurn_of_multiplicative (by decide)] at ha
  cases ha
  revert hle
  decide +kernel

end CharacterSheet
