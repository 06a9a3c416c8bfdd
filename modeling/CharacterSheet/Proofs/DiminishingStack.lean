import CharacterSheet.Proofs.Binary64.Bounds
import CharacterSheet.Proofs.Binary64.Product
import CharacterSheet.Proofs.Interleaving

/-!
# How high a stack grows

Every magnitude that is stacked adds its share of what has been reached. A share below one whole
never adds more than has been reached already, so each magnitude at most doubles the stack. Nothing
holds it below one: three quarters stacked on three quarters are more than that.

* `IsReached` — what has been reached is no lower than the smallest magnitude, and at most as much
  as doubling makes of it;
* `IsReached.step`, `IsReached.foldl` — one more magnitude, and all of them;
* `exists_smallest` — the stack starts at the smallest magnitude;
* `diminishingStack_between` — the bounds of a stack;
* `diminishingStack_reaches_one` — a stack of magnitudes below one that is above one.
-/

namespace CharacterSheet

open Binary64

variable {smallest reached v x y : Float} {k : Nat} {magnitudes : List Float}

namespace Binary64

theorem level_one_pos : 0 < level 1 := by decide +kernel

/-- The total order of bits has the doubles that can be compared in their order. -/
theorem level_le_of_totalLE (h : totalLE x y) : level x ≤ level y := by
  have hx : x.toBits.toNat < 2 ^ 64 := x.toBits.toNat_lt
  have hy : y.toBits.toNat < 2 ^ 64 := y.toBits.toNat_lt
  rw [totalLE, decide_eq_true_eq, orderKey_eq, orderKey_eq] at h
  have hlevel (x : Float) : level x = if 2 ^ 63 ≤ x.toBits.toNat
      then -((x.toBits.toNat % 2 ^ 63 : Nat) : Int) else (x.toBits.toNat % 2 ^ 63 : Nat) := by
    unfold level signed isNegative lowBits
    rw [signBit_eq]
    simp only [decide_eq_true_eq]
  rw [hlevel, hlevel]
  split at h <;> split at h <;> simp only [*, if_true, if_false] <;> omega

theorem magnitude_infinity (n : Bool) : magnitude (infinity n) = magnitudeOfBits infinityBits :=
  magnitude_ofSignBits le_rfl

theorem unity_lt_infinity : unity < magnitudeOfBits infinityBits := by decide +kernel

/-- A double between zero and one is finite. -/
theorem isFinite_of_le_one (h0 : 0 ≤ level x) (hx : x.isNaN = false) (h1 : x ≤ 1) : x.isFinite := by
  rw [isFinite_iff_lowBits_lt hx]
  rw [le_iff_level hx (by decide), level_of_nonneg h0] at h1
  have hone : level 1 < infinityBits := by decide +kernel
  omega

end Binary64

/-! ### One more magnitude -/

/-- What has been reached is no NaN, no lower than the smallest magnitude, and at most as much as
doubling the smallest magnitude `k` times makes of it. -/
structure IsReached (smallest : Float) (k : Nat) (reached : Float) : Prop where
  isNaN_eq : reached.isNaN = false
  level_le : level smallest ≤ level reached
  magnitude_le : magnitude reached ≤ 2 ^ k * magnitude smallest

namespace IsReached

theorem step_of_isFinite (h : IsReached smallest k reached) (h0 : 0 ≤ level smallest)
    (hreached : reached.isFinite) (hv : v.isFinite) (h0v : 0 ≤ level v) (h1 : v ≤ 1) :
    IsReached smallest (k + 1) (reached + reached * v) := by
  obtain ⟨hfinite, h0p, hmagnitude⟩ := mul_of_le_one hreached hv (h0.trans h.level_le) h0v h1
  have hsum := isNaN_add h.isNaN_eq hfinite
  have hraised : reached ≤ reached + reached * v := by
    refine le_add_of_not_neg h.isNaN_eq hfinite ?_
    rw [lt_iff_level (isNaN_of_isFinite hfinite) (by decide), not_lt]
    exact h0p
  refine ⟨hsum, h.level_le.trans ((le_iff_level h.isNaN_eq hsum).1 hraised), ?_⟩
  calc magnitude (reached + reached * v) ≤ 2 * magnitude reached :=
        magnitude_add_le_double hreached hfinite hmagnitude
    _ ≤ 2 * (2 ^ k * magnitude smallest) := Nat.mul_le_mul_left 2 h.magnitude_le
    _ = 2 ^ (k + 1) * magnitude smallest := by rw [Nat.pow_succ', Nat.mul_assoc]

/-- An infinity is reached only from above zero. -/
theorem level_pos_of_infinity {negative : Bool} (h : IsReached smallest k (infinity negative))
    (hsmallest : smallest.isFinite) (h0 : 0 ≤ level smallest) :
    0 < level smallest ∧ negative = false := by
  have hinf := infinityBits_pos
  constructor
  · refine h0.lt_of_ne fun hzero => ?_
    have hbits : lowBits smallest = 0 := by
      rw [level_of_nonneg h0] at hzero
      omega
    have hle := h.magnitude_le
    rw [magnitude_infinity, magnitude_eq hsmallest, hbits, magnitudeOfBits_zero, Nat.mul_zero]
      at hle
    exact (magnitudeOfBits_pos hinf).not_ge hle
  · have hle := h0.trans h.level_le
    rw [infinity, level_ofSignBits le_rfl] at hle
    cases negative
    · rfl
    · rw [signed_true] at hle
      omega

/-- There an infinity stays what it is. -/
theorem step_of_infinity {negative : Bool} (h : IsReached smallest k (infinity negative))
    (hsmallest : smallest.isFinite) (h0 : 0 ≤ level smallest) (hv : v.isFinite)
    (hle : level smallest ≤ level v) :
    IsReached smallest (k + 1) (infinity negative + infinity negative * v) := by
  obtain ⟨hpos, rfl⟩ := h.level_pos_of_infinity hsmallest h0
  have hbits : 0 < lowBits v := by
    rw [level_of_nonneg (h0.trans hle)] at hle
    omega
  have hsign : isNegative v = false :=
    (isNegative_eq_false_or (h0.trans hle)).resolve_right hbits.ne'
  have hstays : infinity false + infinity false * v = infinity false := by
    rw [infinity_mul hv hbits, hsign]
    decide +kernel
  rw [hstays]
  refine ⟨h.isNaN_eq, h.level_le, h.magnitude_le.trans ?_⟩
  exact Nat.mul_le_mul_right _ (Nat.pow_le_pow_right (by norm_num) (Nat.le_succ k))

theorem step (h : IsReached smallest k reached) (hsmallest : smallest.isFinite)
    (h0 : 0 ≤ level smallest) (hv : v.isFinite) (hle : level smallest ≤ level v) (h1 : v ≤ 1) :
    IsReached smallest (k + 1) (reached + reached * v) := by
  rcases isFinite_or_eq_infinity h.isNaN_eq with hreached | ⟨negative, rfl⟩
  · exact h.step_of_isFinite h0 hreached hv (h0.trans hle) h1
  · exact h.step_of_infinity hsmallest h0 hv hle

/-- All further magnitudes, of which none is smaller. -/
theorem foldl (hsmallest : smallest.isFinite) (h0 : 0 ≤ level smallest) {rest : List Float}
    (hrest : ∀ v ∈ rest, v.isFinite ∧ level smallest ≤ level v ∧ v ≤ 1)
    (h : IsReached smallest k reached) :
    IsReached smallest (k + rest.length)
      (rest.foldl (fun reached v => reached + reached * v) reached) := by
  induction rest generalizing k reached with
  | nil => exact h
  | cons v rest ih =>
    obtain ⟨⟨hv, hle, h1⟩, hrest⟩ := List.forall_mem_cons.1 hrest
    have hlength : k + (v :: rest).length = k + 1 + rest.length := by
      rw [List.length_cons]
      omega
    rw [List.foldl_cons, hlength]
    exact ih hrest (h.step hsmallest h0 hv hle h1)

end IsReached

/-! ### The whole stack -/

/-- The stack starts at a magnitude that comes before all others. -/
theorem exists_smallest (hne : magnitudes ≠ []) :
    ∃ smallest rest, (smallest :: rest).Perm magnitudes ∧ (∀ v ∈ rest, totalLE smallest v) ∧
      diminishingStack magnitudes =
        rest.foldl (fun reached v => reached + reached * v) smallest := by
  have hperm : (magnitudes.mergeSort totalLE).Perm magnitudes := List.mergeSort_perm _ _
  have hsorted : (magnitudes.mergeSort totalLE).Pairwise fun x y => totalLE x y :=
    List.pairwise_mergeSort (fun x y z => @totalLE_trans x y z) totalLE_total magnitudes
  unfold diminishingStack
  cases h : magnitudes.mergeSort totalLE with
  | nil =>
    rw [h] at hperm
    exact absurd hperm.nil_eq.symm hne
  | cons smallest rest =>
    rw [h] at hperm hsorted
    exact ⟨smallest, rest, hperm, fun v hv => List.rel_of_pairwise_cons hsorted hv, rfl⟩

/-- The bounds of a stack, given the smallest of its magnitudes. -/
structure IsStackOver (magnitudes : List Float) (smallest stack : Float) : Prop where
  smallest_le : smallest ≤ stack
  /-- Each magnitude besides the smallest at most doubles the stack. -/
  magnitude_le : stack.isFinite → magnitude stack ≤ 2 ^ (magnitudes.length - 1) * magnitude smallest
  /-- A single magnitude stays below one, two stay below two, three below four, and so on. -/
  magnitude_lt : stack.isFinite → magnitude stack < 2 ^ (magnitudes.length - 1) * unity
  isFinite : magnitudes.length ≤ 1024 → stack.isFinite
  /-- A stack that starts low enough stays below one. -/
  lt_one : 2 ^ (magnitudes.length - 1) * magnitude smallest < unity → stack < 1

theorem IsReached.isStackOver (hsmallest : smallest.isFinite) (h0 : 0 ≤ level smallest)
    (h1 : smallest < 1) (h : IsReached smallest (magnitudes.length - 1) reached) :
    IsStackOver magnitudes smallest reached := by
  have hunit : magnitude smallest < unity := by
    have hlevel := (lt_iff_level (isNaN_of_isFinite hsmallest) (by decide)).1 h1
    rw [level_of_nonneg h0, level_of_nonneg level_one_pos.le] at hlevel
    rw [magnitude_eq hsmallest, ← magnitude_one, magnitude_eq (by decide)]
    exact magnitudeOfBits_strictMono (by omega)
  have hlt : magnitude reached < 2 ^ (magnitudes.length - 1) * unity :=
    h.magnitude_le.trans_lt (Nat.mul_lt_mul_of_pos_left hunit (Nat.two_pow_pos _))
  have hfinite (hsmall : magnitude reached < magnitudeOfBits infinityBits) :
      reached.isFinite := by
    rcases isFinite_or_eq_infinity h.isNaN_eq with hreached | ⟨negative, rfl⟩
    · exact hreached
    · exact absurd hsmall (magnitude_infinity negative ▸ lt_irrefl _)
  refine ⟨?_, fun _ => h.magnitude_le, fun _ => hlt, fun hlength => hfinite ?_, fun hlow => ?_⟩
  · exact (le_iff_level (isNaN_of_isFinite hsmallest) h.isNaN_eq).2 h.level_le
  · rw [magnitudeOfBits_infinityBits]
    refine hlt.trans (Nat.mul_lt_mul_of_pos_right ?_ unity_pos)
    exact Nat.pow_lt_pow_right (by norm_num) (by omega)
  · have hlow := h.magnitude_le.trans_lt hlow
    have hreached : reached.isFinite := hfinite (hlow.trans unity_lt_infinity)
    have h0r := h0.trans h.level_le
    rw [magnitude_eq hreached, ← magnitude_one, magnitude_eq (by decide)] at hlow
    have hbits := magnitudeOfBits_strictMono.lt_iff_lt.1 hlow
    rw [lt_iff_level h.isNaN_eq (by decide), level_of_nonneg h0r, level_of_nonneg level_one_pos.le]
    omega

/-- A stack of magnitudes from zero on and below one is at least the smallest of them. Each of the
others at most doubles it. -/
theorem diminishingStack_between (hne : magnitudes ≠ []) (h : ∀ v ∈ magnitudes, 0 ≤ v ∧ v < 1) :
    ∃ smallest ∈ magnitudes, (∀ v ∈ magnitudes, smallest ≤ v) ∧
      IsStackOver magnitudes smallest (diminishingStack magnitudes) := by
  obtain ⟨smallest, rest, hperm, hfirst, hstack⟩ := exists_smallest hne
  have hnumber (v : Float) (hv : v ∈ magnitudes) : v.isNaN = false := (isNaN_of_le (h v hv).1).2
  have h0 (v : Float) (hv : v ∈ magnitudes) : 0 ≤ level v :=
    level_nonneg (hnumber v hv) (h v hv).1
  have h1 (v : Float) (hv : v ∈ magnitudes) : v ≤ 1 := by
    have hlt := (lt_iff_level (hnumber v hv) (by decide)).1 (h v hv).2
    exact (le_iff_level (hnumber v hv) (by decide)).2 hlt.le
  have hfinite (v : Float) (hv : v ∈ magnitudes) : v.isFinite :=
    isFinite_of_le_one (h0 v hv) (hnumber v hv) (h1 v hv)
  have hmem : smallest ∈ magnitudes := hperm.subset List.mem_cons_self
  have hrest (v : Float) (hv : v ∈ rest) : v ∈ magnitudes :=
    hperm.subset (List.mem_cons_of_mem smallest hv)
  refine ⟨smallest, hmem, fun v hv => ?_, ?_⟩
  · rw [le_iff_level (hnumber smallest hmem) (hnumber v hv)]
    rcases List.mem_cons.1 (hperm.symm.subset hv) with rfl | hv
    · exact le_rfl
    · exact level_le_of_totalLE (hfirst v hv)
  · have hstart : IsReached smallest 0 smallest :=
      ⟨hnumber smallest hmem, le_rfl, by rw [Nat.pow_zero, Nat.one_mul]⟩
    have hreached := hstart.foldl (hfinite smallest hmem) (h0 smallest hmem) fun v hv =>
      ⟨hfinite v (hrest v hv), level_le_of_totalLE (hfirst v hv), h1 v (hrest v hv)⟩
    have hlength : 0 + rest.length = magnitudes.length - 1 := by
      have := hperm.length_eq
      rw [List.length_cons] at this
      omega
    rw [← hstack, hlength] at hreached
    exact hreached.isStackOver (hfinite smallest hmem) (h0 smallest hmem) (h smallest hmem).2

/-- An eighth at the bottom may be doubled twice. -/
theorem diminishingStack_between_eighth :
    0.125 ≤ diminishingStack [0.25, 0.125, 0.25] ∧ diminishingStack [0.25, 0.125, 0.25] < 1 := by
  have hne : ([0.25, 0.125, 0.25] : List Float) ≠ [] := by decide
  obtain ⟨smallest, hmem, hle, h⟩ := diminishingStack_between hne (by decide +kernel)
  obtain rfl : smallest = 0.125 := by
    have hleast := hle 0.125 (by simp)
    have hcases : smallest = 0.25 ∨ smallest = 0.125 := by simpa [or_comm] using hmem
    exact hcases.resolve_left fun h => absurd (h ▸ hleast) (by decide +kernel)
  exact ⟨h.smallest_le, h.lt_one (by decide +kernel)⟩

/-- Three quarters stacked on three quarters are more than one. -/
theorem diminishingStack_reaches_one : ¬∀ magnitudes : List Float, magnitudes ≠ [] →
    (∀ v ∈ magnitudes, 0 ≤ v ∧ v < 1) →
    (∃ smallest ∈ magnitudes, (∀ v ∈ magnitudes, smallest ≤ v) ∧
      smallest ≤ diminishingStack magnitudes) ∧ diminishingStack magnitudes < 1 := by
  intro h
  have hlt := (h [0.75, 0.75] (by decide) (by decide +kernel)).2
  have hsorted : [0.75, 0.75].mergeSort totalLE = [0.75, 0.75] :=
    List.mergeSort_of_pairwise (by decide +kernel)
  rw [diminishingStack, hsorted] at hlt
  revert hlt
  decide +kernel

end CharacterSheet
