import CharacterSheet.Proofs.Binary64.Quotient

/-!
# The order of doubles, and sums that keep it

A double that is no NaN has a level, which is the number of steps from zero. Doubles compare as
their levels do, and a sum is at the level to which the exact sum is rounded.

* `le_iff_level`, `lt_iff_level` — comparison of doubles is comparison of levels;
* `level_add` — the level of a sum is the rounded level of the exact sum;
* `roundedLevel_mono` — rounding keeps the order;
* `le_add_of_not_neg` — adding what is not negative lowers no double.
-/

namespace CharacterSheet.Binary64

open Float.Model Float.Model.UnpackedFloat

variable {n₁ n₂ : Bool} {b b₁ b₂ k k' : Nat} {x y a : Float}

/-- A number of steps up or down. -/
def signed (negative : Bool) (b : Nat) : Int := if negative then -(b : Int) else b

@[simp] theorem signed_false (b : Nat) : signed false b = b := rfl

@[simp] theorem signed_true (b : Nat) : signed true b = -b := rfl

theorem signed_zero (negative : Bool) : signed negative 0 = 0 := by
  cases negative <;> rfl

/-- How far a double is from zero, counted in the doubles on the way. -/
def level (x : Float) : Int := signed (isNegative x) (lowBits x)

theorem lowBits_ofSignBits (hb : b ≤ infinityBits) : lowBits (ofSignBits n₁ b) = b := by
  rw [lowBits, toNat_toBits_ofSignBits hb]
  rw [infinityBits_eq] at hb
  cases n₁ <;> simp only [signedWord, signBit_eq] <;> norm_num <;> omega

theorem level_ofSignBits (hb : b ≤ infinityBits) : level (ofSignBits n₁ b) = signed n₁ b := by
  rw [level, isNegative_ofSignBits hb, lowBits_ofSignBits hb]

/-! ### Comparison -/

/-- Of two doubles with different bits, the lower has the lower exponent, or the lower significand
under the same exponent. -/
theorem parts_lt (h : b₁ < b₂) : (exponentOfBits b₁ : Int) - 1074 < exponentOfBits b₂ - 1074 ∨
    (exponentOfBits b₁ : Int) - 1074 = exponentOfBits b₂ - 1074 ∧
      significandOfBits b₁ < significandOfBits b₂ := by
  unfold exponentOfBits significandOfBits
  split <;> split <;> omega

theorem compare_parts (b₁ b₂ : Nat) :
    (Ord.compare ((exponentOfBits b₁ : Int) - 1074) (exponentOfBits b₂ - 1074)).then
      (Ord.compare (significandOfBits b₁) (significandOfBits b₂)) = Ord.compare b₁ b₂ := by
  rcases lt_trichotomy b₁ b₂ with h | rfl | h
  · rw [Nat.compare_eq_lt.2 h, Ordering.then_eq_lt, Int.compare_eq_lt, Int.compare_eq_eq,
      Nat.compare_eq_lt]
    exact parts_lt h
  · rw [Nat.compare_eq_eq.2 rfl, Nat.compare_eq_eq.2 rfl, Int.compare_eq_eq.2 rfl]
    rfl
  · rw [Nat.compare_eq_gt.2 h, Ordering.then_eq_gt, Int.compare_eq_gt, Int.compare_eq_eq,
      Nat.compare_eq_gt]
    exact (parts_lt h).imp_right fun h => ⟨h.1.symm, h.2⟩

theorem compare_natCast (b₁ b₂ : Nat) : Ord.compare (b₁ : Int) b₂ = Ord.compare b₁ b₂ := by
  rw [Int.compare_eq_ite_lt, Nat.compare_eq_ite_lt]
  simp

theorem compare_neg_natCast (b₁ b₂ : Nat) :
    Ord.compare (-(b₁ : Int)) (-b₂) = (Ord.compare b₁ b₂).swap := by
  rw [Int.compare_eq_ite_lt, Nat.compare_swap, Nat.compare_eq_ite_lt]
  simp

/-- The parts of a double with a given sign and given bits below it. -/
inductive HasParts (negative : Bool) : Nat → UnpackedFloat → Prop
  | zero : HasParts negative 0 (.zero (signOf negative))
  | finite {b : Nat} (h0 : 0 < b) (hb : b < infinityBits) :
    HasParts negative b (finiteOfBits negative b h0)
  | infinity : HasParts negative infinityBits (.infinity (signOf negative))

theorem hasParts_ofSignBits (hb : b ≤ infinityBits) :
    HasParts n₁ b (ofSignBits n₁ b).toModel.unpack := by
  rcases b.eq_zero_or_pos with rfl | h0
  · rw [parts_ofSignBits_zero]
    exact .zero
  rcases hb.eq_or_lt with rfl | hb
  · rw [parts_ofSignBits_infinityBits]
    exact .infinity
  · rw [parts_ofSignBits h0 hb]
    exact .finite h0 hb

theorem infinityBits_pos : 0 < infinityBits := by decide

theorem HasParts.compare_eq {u v : UnpackedFloat} (hu : HasParts n₁ b₁ u) (hv : HasParts n₂ b₂ v) :
    u.compare v = some (Ord.compare (signed n₁ b₁) (signed n₂ b₂)) := by
  have hinf := infinityBits_pos
  -- of two doubles one is closer to zero by its kind, unless both are finite
  cases hu with
  | finite h₁ hb₁ =>
    cases hv with
    | finite h₂ hb₂ =>
      cases n₁ <;> cases n₂ <;> simp only [signed_false, signed_true]
      · exact congrArg some ((compare_parts b₁ b₂).trans (compare_natCast b₁ b₂).symm)
      · exact congrArg some (Int.compare_eq_gt.2 (by omega)).symm
      · exact congrArg some (Int.compare_eq_lt.2 (by omega)).symm
      · exact congrArg some
          ((congrArg Ordering.swap (compare_parts b₁ b₂)).trans (compare_neg_natCast b₁ b₂).symm)
    | zero | infinity =>
      cases n₁ <;> cases n₂ <;> simp only [signed_false, signed_true]
      all_goals first
        | exact congrArg some (Int.compare_eq_lt.2 (by omega)).symm
        | exact congrArg some (Int.compare_eq_gt.2 (by omega)).symm
  | zero | infinity =>
    cases hv <;> cases n₁ <;> cases n₂ <;> simp only [signed_false, signed_true]
    all_goals first
      | exact congrArg some (Int.compare_eq_lt.2 (by omega)).symm
      | exact congrArg some (Int.compare_eq_gt.2 (by omega)).symm
      | exact congrArg some (Int.compare_eq_eq.2 (by omega)).symm

/-- Doubles compare as their levels do. -/
theorem compare_eq (hx : x.isNaN = false) (hy : y.isNaN = false) :
    x.toModel.unpack.compare y.toModel.unpack = some (Ord.compare (level x) (level y)) := by
  have hbx := lowBits_le_of_isNaN hx
  have hby := lowBits_le_of_isNaN hy
  rw [← ofSignBits_isNegative_lowBits hx, ← ofSignBits_isNegative_lowBits hy,
    level_ofSignBits hbx, level_ofSignBits hby]
  exact (hasParts_ofSignBits hbx).compare_eq (hasParts_ofSignBits hby)

theorem le_iff_unpack : x ≤ y ↔ x.toModel.unpack.le y.toModel.unpack :=
  decide_eq_true_iff (p := x.toModel ≤ y.toModel)

theorem lt_iff_unpack : x < y ↔ x.toModel.unpack.lt y.toModel.unpack :=
  decide_eq_true_iff (p := x.toModel < y.toModel)

theorem le_of_lt (h : x < y) : x ≤ y := by
  rw [lt_iff_unpack, UnpackedFloat.lt, beq_iff_eq] at h
  rw [le_iff_unpack, UnpackedFloat.le, h]
  rfl

/-- What can be compared is no NaN. -/
theorem isNaN_of_le (h : x ≤ y) : x.isNaN = false ∧ y.isNaN = false := by
  show x.toModel.unpack.isNaN = false ∧ y.toModel.unpack.isNaN = false
  have hle := le_iff_unpack.1 h
  revert hle
  cases x.toModel.unpack <;> cases y.toModel.unpack <;>
    simp [UnpackedFloat.le, UnpackedFloat.compare, UnpackedFloat.isNaN]

theorem le_iff_level (hx : x.isNaN = false) (hy : y.isNaN = false) :
    x ≤ y ↔ level x ≤ level y := by
  rw [le_iff_unpack, UnpackedFloat.le, compare_eq hx hy, Option.any_some, Int.isLE_compare]

theorem le_of_le_of_le {z : Float} (hxy : x ≤ y) (hyz : y ≤ z) : x ≤ z := by
  obtain ⟨hx, hy⟩ := isNaN_of_le hxy
  obtain ⟨-, hz⟩ := isNaN_of_le hyz
  rw [le_iff_level hx hy] at hxy
  rw [le_iff_level hy hz] at hyz
  exact (le_iff_level hx hz).2 (hxy.trans hyz)

theorem le_self (hx : x.isNaN = false) : x ≤ x := (le_iff_level hx hx).2 le_rfl

theorem lt_iff_level (hx : x.isNaN = false) (hy : y.isNaN = false) :
    x < y ↔ level x < level y := by
  rw [lt_iff_unpack, UnpackedFloat.lt, compare_eq hx hy, beq_iff_eq, Option.some_inj,
    Int.compare_eq_lt]

/-! ### Rounding keeps the order -/

theorem roundedBits_mono (h : k ≤ k') : roundedBits k ≤ roundedBits k' := by
  simpa only [ratioBits_one] using ratioBits_mono h 1

/-- The level to which a number of units is rounded. -/
def roundedLevel (k : Int) : Int :=
  signed (decide (k < 0)) (min (roundedBits k.natAbs) infinityBits)

theorem signed_le_signed {negative negative' : Bool} {b b' : Nat}
    (h : negative = negative' → if negative then b' ≤ b else b ≤ b')
    (h' : negative = false → negative' = false) : signed negative b ≤ signed negative' b' := by
  cases negative <;> cases negative' <;> simp_all

theorem roundedLevel_mono {k k' : Int} (h : k ≤ k') : roundedLevel k ≤ roundedLevel k' := by
  have hmono {m m' : Nat} (hm : m ≤ m') :
      min (roundedBits m) infinityBits ≤ min (roundedBits m') infinityBits :=
    min_le_min_right _ (roundedBits_mono hm)
  unfold roundedLevel
  refine signed_le_signed (fun heq => ?_) fun hk => ?_
  · rw [decide_eq_decide] at heq
    split <;> simp only [decide_eq_true_iff] at * <;> exact hmono (by omega)
  · simp only [decide_eq_false_iff_not] at *
    omega

theorem level_scaled (hx : x.isFinite) : level x = roundedLevel (scaled x) := by
  obtain ⟨n, b, hb, rfl⟩ := exists_eq_ofSignBits hx
  rw [level_ofSignBits hb.le, roundedLevel, natAbs_scaled_ofSignBits hb.le,
    roundedBits_magnitudeOfBits hb]
  rcases b.eq_zero_or_pos with rfl | h0
  · rw [signed_zero, signed_zero]
  · rw [decide_scaled_ofSignBits_neg h0 hb.le]

/-! ### Sums -/

theorem HasParts.isNaN_eq {u : UnpackedFloat} (h : HasParts n₁ b u) : u.isNaN = false := by
  cases h <;> rfl

theorem isNaN_ofSignBits (hb : b ≤ infinityBits) : (ofSignBits n₁ b).isNaN = false :=
  (hasParts_ofSignBits hb).isNaN_eq

/-- A sum of finite doubles is a double at the rounded level of the exact sum. -/
theorem exists_add_eq (hx : x.isFinite) (hy : y.isFinite) :
    ∃ negative, x + y =
        ofSignBits negative (min (roundedBits (scaled x + scaled y).natAbs) infinityBits) ∧
      level (x + y) = roundedLevel (scaled x + scaled y) := by
  obtain ⟨negative, hsign, hsum⟩ := add_eq_ofRatio hx hy
  rw [ofRatio_eq_ofSignBits] at hsum
  refine ⟨negative, hsum, ?_⟩
  rw [hsum, level_ofSignBits (min_le_right _ _), roundedLevel]
  by_cases h0 : scaled x + scaled y = 0
  · rw [h0, Int.natAbs_zero, roundedBits_zero, Nat.zero_min, signed_zero, signed_zero]
  · rw [hsign h0]

theorem level_add (hx : x.isFinite) (hy : y.isFinite) :
    level (x + y) = roundedLevel (scaled x + scaled y) := by
  obtain ⟨negative, -, hlevel⟩ := exists_add_eq hx hy
  exact hlevel

/-- A double that is no NaN is finite or an infinity. -/
theorem isFinite_or_eq_infinity (hx : x.isNaN = false) :
    x.isFinite ∨ ∃ negative, x = infinity negative := by
  have hb := lowBits_le_of_isNaN hx
  rw [← ofSignBits_isNegative_lowBits hx]
  rcases hb.lt_or_eq with hlt | heq
  · exact .inl ((isFinite_ofSignBits_iff hb).2 hlt)
  · exact .inr ⟨isNegative x, by rw [heq, infinity]⟩

theorem isFinite_iff_lowBits_lt (hx : x.isNaN = false) : x.isFinite ↔ lowBits x < infinityBits := by
  have hiff : (ofSignBits (isNegative x) (lowBits x)).isFinite ↔ lowBits x < infinityBits :=
    isFinite_ofSignBits_iff (lowBits_le_of_isNaN hx)
  rwa [ofSignBits_isNegative_lowBits hx] at hiff

/-- Adding a finite double makes no NaN. -/
theorem isNaN_add (hx : x.isNaN = false) (ha : a.isFinite) : (x + a).isNaN = false := by
  rcases isFinite_or_eq_infinity hx with hx | ⟨negative, rfl⟩
  · obtain ⟨negative, hsum, -⟩ := exists_add_eq hx ha
    rw [hsum]
    exact isNaN_ofSignBits (min_le_right _ _)
  · rw [infinity_add ha]
    exact hx

theorem isNaN_ofParts_notANumber : (ofParts .notANumber).isNaN = true := by decide +kernel

/-- A NaN stays a NaN, whatever is added. -/
theorem isNaN_add_left (hx : x.isNaN = true) (a : Float) : (x + a).isNaN = true := by
  replace hx : x.toModel.unpack.isNaN = true := hx
  have hparts : x.toModel.unpack = .notANumber := by
    revert hx
    cases x.toModel.unpack <;> simp [UnpackedFloat.isNaN]
  rw [add_eq_ofParts, hparts]
  exact isNaN_ofParts_notANumber

theorem level_nonneg_iff (ha : a.isFinite) : 0 ≤ level a ↔ 0 ≤ scaled a := by
  obtain ⟨n, b, hb, rfl⟩ := exists_eq_ofSignBits ha
  rcases b.eq_zero_or_pos with rfl | h0
  · rw [level_ofSignBits hb.le, scaled_ofSignBits_zero, signed_zero]
  · have := magnitudeOfBits_pos h0
    rw [level_ofSignBits hb.le, scaled_ofSignBits hb.le]
    cases n
    · simp
    · simp only [signed_true, if_true]
      omega

/-- Adding what is not negative lowers no double. -/
theorem le_add_of_not_neg (hx : x.isNaN = false) (ha : a.isFinite) (h0 : ¬a < 0) : x ≤ x + a := by
  rw [le_iff_level hx (isNaN_add hx ha)]
  rcases isFinite_or_eq_infinity hx with hx | ⟨negative, rfl⟩
  · have hscaled : 0 ≤ scaled a := by
      rw [lt_iff_level (isNaN_of_isFinite ha) (by decide), not_lt] at h0
      exact (level_nonneg_iff ha).1 h0
    rw [level_scaled hx, level_add hx ha]
    exact roundedLevel_mono (by omega)
  · rw [infinity_add ha]

end CharacterSheet.Binary64
