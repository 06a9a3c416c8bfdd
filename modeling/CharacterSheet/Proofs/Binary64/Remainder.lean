import CharacterSheet.Proofs.Binary64.Whole

/-!
# The remainder of two doubles

The remainder whose quotient is rounded toward zero is a double itself, since it is counted in the
smaller of the two units and is not larger than the operand with that unit. The one whose quotient
is rounded down takes an addition if the signs differ, and only that addition rounds.

* `isNearest_add` — a sum is the double nearest to the exact sum;
* `isMagnitude_mod`, `toRat_truncMod` — the remainder with the sign of the dividend is exact;
* `isNearest_floorMod` — the other one is the double nearest to the exact remainder.
-/

namespace CharacterSheet.Binary64

variable {negative : Bool} {k n : Nat} {x y : Float} {a b r : ℚ}

/-! ### Sums -/

/-- The sum of two doubles is the double nearest to the exact sum. -/
theorem isNearest_add (hx : x.isFinite) (hy : y.isFinite) (hfinite : (x + y).isFinite) :
    IsNearest (toRat x + toRat y) (x + y) := by
  obtain ⟨negative, hsign, heq⟩ := add_eq_ofRatio hx hy
  have hsum : signedRat negative ((scaled x + scaled y).natAbs / ((1 : Nat) * unity)) =
      toRat x + toRat y := by
    rw [Nat.cast_one, one_mul, signedRat_div, toRat, toRat, ← add_div, ← Int.cast_add]
    congr 1
    by_cases h0 : scaled x + scaled y = 0
    · rw [h0]
      cases negative <;> simp [signedRat]
    · rw [hsign h0, signedRat_natAbs]
  rw [heq] at hfinite ⊢
  exact hsum ▸ isNearest_ofRatio Nat.one_pos hfinite

/-! ### Exact remainders -/

/-- A number of units that is no longer than a significand, and not above a double. -/
theorem isMagnitude_of_dvd (hx : x.isFinite) (hle : n ≤ magnitude x) (hdvd : 2 ^ k ∣ n)
    (hlt : n < 2 ^ (53 + k)) : IsMagnitude n := by
  obtain ⟨c, rfl⟩ := hdvd
  rw [Nat.mul_comm] at hle hlt ⊢
  rw [Nat.pow_add] at hlt
  refine isMagnitude_mul_two_pow (Nat.lt_of_mul_lt_mul_right hlt) (hle.trans_lt ?_)
  rw [magnitude_eq hx, ← magnitudeOfBits_infinityBits]
  exact magnitudeOfBits_strictMono (lowBits_lt_of_isFinite hx)

theorem magnitude_lt_two_pow (hx : x.isFinite) (hk : exponentOfBits (lowBits x) ≤ k) :
    magnitude x < 2 ^ (53 + k) := by
  rw [magnitude_eq hx]
  exact magnitudeOfBits_lt_two_pow hk

theorem two_pow_dvd_magnitude (hx : x.isFinite) (hk : k ≤ exponentOfBits (lowBits x)) :
    2 ^ k ∣ magnitude x := by
  rw [magnitude_eq hx]
  exact (Nat.pow_dvd_pow 2 hk).mul_left _

/-- What a division by a magnitude leaves of another one is a magnitude. -/
theorem isMagnitude_mod (hx : x.isFinite) (hy : y.isFinite) :
    IsMagnitude (magnitude x % magnitude y) := by
  rcases Nat.eq_zero_or_pos (magnitude y) with h0 | hpos
  · rw [h0, Nat.mod_zero]
    exact isMagnitude_magnitude hx
  have hle : magnitude x % magnitude y ≤ magnitude x := Nat.mod_le _ _
  rcases le_total (exponentOfBits (lowBits x)) (exponentOfBits (lowBits y)) with h | h
  · refine isMagnitude_of_dvd hx hle ?_ (hle.trans_lt (magnitude_lt_two_pow hx le_rfl))
    exact (Nat.dvd_mod_iff (two_pow_dvd_magnitude hy h)).2 (two_pow_dvd_magnitude hx le_rfl)
  · refine isMagnitude_of_dvd hx hle ?_
      ((Nat.mod_lt _ hpos).trans (magnitude_lt_two_pow hy le_rfl))
    exact (Nat.dvd_mod_iff (two_pow_dvd_magnitude hy le_rfl)).2 (two_pow_dvd_magnitude hx h)

/-- A remainder of `a` by `b` that is left by a whole quotient, and has the sign of `a`. -/
structure IsTruncRemainder (a b r : ℚ) : Prop where
  exists_quotient : ∃ k : Int, r = a - b * k
  lt_divisor : |r| < |b|
  le_dividend : |r| ≤ |a|
  sign : 0 ≤ r * a

theorem truncMod_eq (hx : x.isFinite) (hy : y.isFinite) (h0 : toRat y ≠ 0) :
    truncMod x y = ofRatio (isNegative x) (magnitude x % magnitude y) 1 := by
  have hne : (y == 0) = false := Bool.eq_false_iff.2 (mt (beq_zero_iff hy).1 h0)
  simp only [truncMod, isNaN_of_isFinite hx, isNaN_of_isFinite hy, isInf_of_isFinite hx,
    isInf_of_isFinite hy, hne, Bool.or_false, Bool.false_eq_true, if_false]

/-- The remainder with the sign of the dividend is exact. -/
theorem isTruncRemainder_truncMod (hx : x.isFinite) (hy : y.isFinite) (h0 : toRat y ≠ 0) :
    (truncMod x y).isFinite ∧ IsTruncRemainder (toRat x) (toRat y) (toRat (truncMod x y)) := by
  obtain ⟨hfinite, hvalue⟩ := toRat_ofRatio (isMagnitude_mod hx hy) (isNegative x)
  rw [← truncMod_eq hx hy h0] at hfinite hvalue
  refine ⟨hfinite, ?_⟩
  have hpos : 0 < magnitude y := by
    rw [magnitude_eq hy]
    exact magnitudeOfBits_pos (Nat.pos_of_ne_zero (mt (lowBits_eq_zero_iff hy).1 h0))
  have hdivision : (magnitude x / unity : ℚ) =
      magnitude y / unity * (magnitude x / magnitude y : Nat) +
        (magnitude x % magnitude y : Nat) / unity := by
    rw [div_mul_eq_mul_div, ← add_div, ← Nat.cast_mul, ← Nat.cast_add, Nat.div_add_mod]
  have hlt : ((magnitude x % magnitude y : Nat) / unity : ℚ) < magnitude y / unity :=
    div_lt_div_of_pos_right (Nat.cast_lt.2 (Nat.mod_lt _ hpos)) unity_pos_rat
  have hle : ((magnitude x % magnitude y : Nat) / unity : ℚ) ≤ magnitude x / unity :=
    div_le_div_of_nonneg_right (Nat.cast_le.2 (Nat.mod_le _ _)) unity_pos_rat.le
  have hnonneg : (0 : ℚ) ≤ (magnitude x % magnitude y : Nat) / unity :=
    div_nonneg (Nat.cast_nonneg _) unity_pos_rat.le
  rw [hvalue, toRat_eq_signedRat x, toRat_eq_signedRat y]
  generalize (magnitude x / unity : ℚ) = μ at *
  generalize (magnitude y / unity : ℚ) = ν at *
  generalize ((magnitude x % magnitude y : Nat) / unity : ℚ) = ρ at *
  generalize magnitude x / magnitude y = k at *
  constructor
  · refine ⟨if isNegative x = isNegative y then k else -k, ?_⟩
    cases isNegative x <;> cases isNegative y <;> simp [signedRat] <;> linarith
  · rw [abs_signedRat, abs_signedRat, abs_of_nonneg hnonneg, abs_of_nonneg (by linarith)]
    exact hlt
  · rw [abs_signedRat, abs_signedRat, abs_of_nonneg hnonneg, abs_of_nonneg (by linarith)]
    exact hle
  · have hproduct : 0 ≤ ρ * μ := mul_nonneg hnonneg (hnonneg.trans hle)
    cases isNegative x <;> simpa [signedRat] using hproduct

/-- Rounding the quotient down moves the remainder to the side of the divisor. -/
theorem IsTruncRemainder.floor_eq (h : IsTruncRemainder a b r) (hb : b ≠ 0) :
    a - b * ⌊a / b⌋ = if r * b < 0 then r + b else r := by
  obtain ⟨k, hk⟩ := h.exists_quotient
  obtain ⟨c, rfl⟩ : ∃ c, r = c * b := ⟨r / b, (div_mul_cancel₀ r hb).symm⟩
  have hquotient : a / b = c + k := by
    rw [div_eq_iff hb]
    linarith
  have hsign : c * b * b < 0 ↔ c < 0 := by
    rw [mul_assoc]
    exact ⟨fun h => neg_of_mul_neg_left h (mul_self_nonneg b),
      fun h => mul_neg_of_neg_of_pos h (mul_self_pos.2 hb)⟩
  have hc : |c| < 1 := by
    have hlt := h.lt_divisor
    rwa [abs_mul, mul_lt_iff_lt_one_left (abs_pos.2 hb)] at hlt
  obtain ⟨hlow, hhigh⟩ := abs_lt.1 hc
  rw [hquotient, Int.floor_add_intCast]
  split
  · next hneg =>
    have hc0 : c < 0 := hsign.1 hneg
    have hfloor : ⌊c⌋ = -1 := by
      rw [Int.floor_eq_iff]
      push_cast
      exact ⟨hlow.le, by linarith⟩
    rw [hfloor]
    push_cast
    linarith
  · next hnonneg =>
    have hfloor : ⌊c⌋ = 0 := Int.floor_eq_zero_iff.2 ⟨not_lt.1 (mt hsign.2 hnonneg), hhigh⟩
    rw [hfloor]
    push_cast
    linarith

/-- On the same side of zero as the divisor, the dividend leaves a remainder there. -/
theorem IsTruncRemainder.mul_divisor_nonneg (h : IsTruncRemainder a b r) (hab : 0 ≤ a * b) :
    0 ≤ r * b := by
  by_cases ha : a = 0
  · have hr : r = 0 := by
      have hle := h.le_dividend
      rwa [ha, abs_zero, abs_nonpos_iff] at hle
    rw [hr, zero_mul]
  · have hproduct : 0 ≤ r * b * (a * a) := by
      have hnonneg := mul_nonneg h.sign hab
      linarith
    exact nonneg_of_mul_nonneg_left hproduct (mul_self_pos.2 ha)

theorem mul_neg_iff_of_ne (hb : b ≠ 0) : r * b < 0 ↔ r ≠ 0 ∧ ¬(r < 0 ↔ b < 0) := by
  constructor
  · intro h
    rcases mul_neg_iff.1 h with ⟨hr, hb⟩ | ⟨hr, hb⟩
    · exact ⟨hr.ne', fun hiff => hr.not_gt (hiff.2 hb)⟩
    · exact ⟨hr.ne, fun hiff => hb.not_gt (hiff.1 hr)⟩
  · rintro ⟨hr, hne⟩
    rcases lt_or_gt_of_ne hr with hr | hr <;> rcases lt_or_gt_of_ne hb with hb | hb
    · exact absurd ⟨fun _ => hb, fun _ => hr⟩ hne
    · exact mul_neg_of_neg_of_pos hr hb
    · exact mul_neg_of_pos_of_neg hr hb
    · exact absurd ⟨fun h => absurd h hr.not_gt, fun h => absurd h hb.not_gt⟩ hne

/-- The remainder on the side of the divisor is the double nearest to the exact one. It is exact if
the operands are on the same side of zero. -/
theorem isNearest_floorMod (hx : x.isFinite) (hy : y.isFinite) (h0 : toRat y ≠ 0)
    (hfinite : (floorMod x y).isFinite) :
    IsNearest (toRat x - toRat y * ⌊toRat x / toRat y⌋) (floorMod x y) ∧
      (0 ≤ toRat x * toRat y →
        toRat (floorMod x y) = toRat x - toRat y * ⌊toRat x / toRat y⌋) := by
  obtain ⟨htrunc, hremainder⟩ := isTruncRemainder_truncMod hx hy h0
  rw [hremainder.floor_eq h0]
  have hcond : (truncMod x y != 0 && decide (truncMod x y < 0) != decide (y < 0)) = true ↔
      toRat (truncMod x y) * toRat y < 0 := by
    rw [mul_neg_iff_of_ne h0, ← lt_zero_iff htrunc, ← lt_zero_iff hy, ne_eq,
      ← beq_zero_iff htrunc]
    simp [bne]
  unfold floorMod at hfinite ⊢
  dsimp only at hfinite ⊢
  by_cases hneg : toRat (truncMod x y) * toRat y < 0
  · rw [if_pos (hcond.2 hneg)] at hfinite ⊢
    rw [if_pos hneg]
    exact ⟨isNearest_add htrunc hy hfinite,
      fun hsame => absurd hneg (hremainder.mul_divisor_nonneg hsame).not_gt⟩
  · rw [if_neg (mt hcond.1 hneg), if_neg hneg]
    exact ⟨isNearest_toRat htrunc, fun _ => rfl⟩

end CharacterSheet.Binary64
