import CharacterSheet.Aggregation.InTurn
import CharacterSheet.Proofs.Binary64.Bits

/-!
# The order of properties

Each property adds to the result of its own kind only, so what properties come to depends on the
properties of each kind, and not on how the kinds are mixed. Sums of doubles depend on their order.
The stack does not: its magnitudes are sorted first, and doubles in the total order can be sorted in
one way only.

* `foldl_meet`, `Aggregates.collectInTurn_eq_collect`, `ActualStatistic.computeInTurn_eq_compute` —
  properties met in turn come to what they come to kind by kind;
* `Binary64.totalLE_antisymm`, `diminishingStack_perm` — the stack of the same magnitudes in another
  order;
* `SameByKind` — properties of which those of each kind are the same, and are in the same order
  unless they are stacked;
* `ActualStatistic.computeInTurn_eq_of_sameByKind` — these make the same of a statistic.
-/

namespace CharacterSheet

/-! ### Kind by kind -/

section InTurn

variable {keywords : KeywordCounts} {properties : List Property}

theorem magnitudes_cons (factor : Factor) (p : Property) (properties : List Property)
    (keywords : KeywordCounts) :
    Aggregates.magnitudes factor (p :: properties) keywords =
      if p.factor = factor then
        p.effectiveMagnitude keywords :: Aggregates.magnitudes factor properties keywords
      else Aggregates.magnitudes factor properties keywords := by
  unfold Aggregates.magnitudes
  by_cases h : p.factor = factor
  · simp [h]
  · simp [h]

/-- Each kind has its own part of what has been met, to which only its own magnitudes are added. -/
theorem foldl_meet (keywords : KeywordCounts) (properties : List Property) (t : Tally) :
    properties.foldl (Tally.meet keywords) t =
      { additions := (Aggregates.magnitudes .additive properties keywords).foldl (· + ·) t.additions
        multipliers :=
          (Aggregates.magnitudes .multiplicative properties keywords).foldl (· + ·) t.multipliers
        stacked :=
          t.stacked ++ Aggregates.magnitudes .additiveMultiplicatively properties keywords } := by
  induction properties generalizing t with
  | nil => simp [Aggregates.magnitudes]
  | cons p properties ih =>
    rw [List.foldl_cons, ih]
    cases hfactor : p.factor <;> simp [Tally.meet, magnitudes_cons, hfactor]

theorem Aggregates.collectInTurn_eq_collect (baseValue : Float) :
    collectInTurn baseValue properties keywords = collect baseValue properties keywords := by
  unfold collectInTurn
  rw [foldl_meet]
  rfl

/-- A loop that passes over some elements is a loop over the others. -/
theorem forIn_eq_foldlM_filter {ε α β : Type} (p : α → Bool) (f : α → Except ε β) (l : List α)
    (init : β) :
    (forIn l init fun a b =>
      if p a then do let b ← f a; pure (ForInStep.yield b) else pure (ForInStep.yield b)) =
      (l.filter p).foldlM (fun _ a => f a) init := by
  induction l generalizing init with
  | nil => rfl
  | cons a l ih =>
    rw [List.forIn_cons, List.filter_cons]
    split
    · rw [List.foldlM_cons]
      cases f a with
      | error error => rfl
      | ok b => exact ih b
    · exact ih init

theorem ActualStatistic.computeInTurn_eq_compute (statistic : Statistic) (limits : ParseLimits) :
    computeInTurn statistic properties keywords limits =
      compute statistic properties keywords limits := by
  unfold computeInTurn compute
  rw [Aggregates.collectInTurn_eq_collect]
  dsimp only
  rw [forIn_eq_foldlM_filter]

end InTurn

/-! ### The stack -/

namespace Binary64

theorem orderKey_eq (x : Float) : orderKey x =
    if 2 ^ 63 ≤ x.toBits.toNat then 2 ^ 63 - 1 - (x.toBits.toNat : Int)
    else (x.toBits.toNat : Int) := by
  unfold orderKey isNegative
  simp only [decide_eq_true_eq]
  rfl

/-- A double has its own place in the total order: those with the sign are below zero. -/
theorem orderKey_inj {x y : Float} (h : orderKey x = orderKey y) : x = y := by
  rw [orderKey_eq, orderKey_eq] at h
  rw [← Float.toBits_inj, ← UInt64.toNat_inj]
  split at h <;> split at h <;> omega

theorem totalLE_antisymm {x y : Float} (hxy : totalLE x y) (hyx : totalLE y x) : x = y := by
  simp only [totalLE, decide_eq_true_eq] at hxy hyx
  exact orderKey_inj (Int.le_antisymm hxy hyx)

end Binary64

/-- The order in which magnitudes are given makes no difference to their stack. -/
theorem diminishingStack_perm {l l' : List Float} (h : l.Perm l') :
    diminishingStack l = diminishingStack l' := by
  have hsorted : l.mergeSort Binary64.totalLE = l'.mergeSort Binary64.totalLE := by
    have hpairwise (l : List Float) :
        (l.mergeSort Binary64.totalLE).Pairwise fun x y => Binary64.totalLE x y :=
      List.pairwise_mergeSort (fun x y z => @Binary64.totalLE_trans x y z) Binary64.totalLE_total l
    refine List.Perm.eq_of_pairwise (fun x y _ _ => Binary64.totalLE_antisymm) (hpairwise l)
      (hpairwise l') ?_
    exact (List.mergeSort_perm l _).trans (h.trans (List.mergeSort_perm l' _).symm)
  rw [diminishingStack, hsorted, diminishingStack]

/-! ### Lists with the same properties of each kind -/

/-- The properties of each kind are the same in two lists. They are in the same order, unless they
are stacked. -/
structure SameByKind (properties others : List Property) : Prop where
  additive : properties.filter (·.factor == .additive) = others.filter (·.factor == .additive)
  multiplicative :
    properties.filter (·.factor == .multiplicative) = others.filter (·.factor == .multiplicative)
  custom : properties.filter (·.factor == .custom) = others.filter (·.factor == .custom)
  stacked : (properties.filter (·.factor == .additiveMultiplicatively)).Perm
    (others.filter (·.factor == .additiveMultiplicatively))

variable {properties others : List Property}

theorem Aggregates.collect_eq_of_sameByKind (h : SameByKind properties others) (baseValue : Float)
    (keywords : KeywordCounts) :
    collect baseValue properties keywords = collect baseValue others keywords := by
  unfold collect magnitudes
  rw [h.additive, h.multiplicative, diminishingStack_perm (h.stacked.map _)]

theorem ActualStatistic.compute_eq_of_sameByKind (h : SameByKind properties others)
    (statistic : Statistic) (keywords : KeywordCounts) (limits : ParseLimits) :
    compute statistic properties keywords limits = compute statistic others keywords limits := by
  have hcustom : properties.filter Property.isCustom = others.filter Property.isCustom := h.custom
  unfold compute
  rw [Aggregates.collect_eq_of_sameByKind h, hcustom]

/-- Of properties met in turn it makes no difference how their kinds are mixed, nor in which order
those are that are stacked: a statistic comes out the same, or fails in the same way. -/
theorem ActualStatistic.computeInTurn_eq_of_sameByKind (h : SameByKind properties others)
    (statistic : Statistic) (keywords : KeywordCounts) (limits : ParseLimits) :
    computeInTurn statistic properties keywords limits =
        computeInTurn statistic others keywords limits ∧
      ∀ baseValue, Aggregates.collectInTurn baseValue properties keywords =
        Aggregates.collectInTurn baseValue others keywords := by
  constructor
  · rw [computeInTurn_eq_compute, computeInTurn_eq_compute, compute_eq_of_sameByKind h]
  · intro baseValue
    rw [Aggregates.collectInTurn_eq_collect, Aggregates.collectInTurn_eq_collect,
      Aggregates.collect_eq_of_sameByKind h]

/-- Properties of all kinds, two of which are stacked. One of these grows with a keyword. -/
def charms : List Property :=
  [{ statistic := "LUCK", value := 0.5, factor := .additiveMultiplicatively },
   { statistic := "LUCK", value := 0.25, factor := .additive },
   .custom "LUCK" "base_value * MULTIPLICATORS + ADDITIONS + ADDITIVE_MULTIPLICATIVELY",
   { statistic := "LUCK", value := 0.125, factor := .additiveMultiplicatively,
     dependsOn := some "RINGS" },
   { statistic := "LUCK", value := 2, factor := .multiplicative },
   { statistic := "LUCK", value := 0.5, factor := .additive }]

/-- The same properties, those that are stacked at the end and the other way round. -/
def charmsRearranged : List Property :=
  charms.filter (·.factor != .additiveMultiplicatively) ++
    (charms.filter (·.factor == .additiveMultiplicatively)).reverse

theorem collectInTurn_charmsRearranged :
    Aggregates.collectInTurn 3 charmsRearranged (fun _ => 2) = ⟨3, 0.75, 2, 0.375⟩ := by
  have hmet : charmsRearranged.foldl (Tally.meet fun _ => 2) {} = ⟨0.75, 2, [0.25, 0.5]⟩ := by
    decide +kernel
  have hsorted : [0.25, 0.5].mergeSort Binary64.totalLE = [0.25, 0.5] :=
    List.mergeSort_of_pairwise (by decide +kernel)
  rw [Aggregates.collectInTurn, hmet]
  dsimp only
  rw [diminishingStack, hsorted]
  decide +kernel

theorem computeInTurn_charms : SameByKind charms charmsRearranged ∧
    ActualStatistic.computeInTurn { name := "LUCK", baseValue := 3, rounding := .exact }
      charms (fun _ => 2) {} = .ok ⟨"LUCK", 3, 7.125⟩ := by
  have hsame : SameByKind charms charmsRearranged :=
    ⟨by decide +kernel, by decide +kernel, by decide +kernel, by decide +kernel⟩
  refine ⟨hsame, ?_⟩
  rw [(ActualStatistic.computeInTurn_eq_of_sameByKind hsame _ _ _).1,
    ActualStatistic.computeInTurn, collectInTurn_charmsRearranged]
  decide +kernel

end CharacterSheet
