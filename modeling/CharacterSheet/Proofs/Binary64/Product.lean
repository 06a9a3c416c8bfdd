import CharacterSheet.Proofs.Binary64.Levels

/-!
# The product of two doubles

The significands of two doubles are multiplied and their exponents added, so that only the exact
product is rounded. It may lie between zero and the smallest unit, and then it is the rounding of a
true quotient of units.

* `ofParts_roundWithAccuracy` — the core library rounds a quotient of units as `ofRatio` does;
* `mul_eq_ofRatio` — the product of two finite doubles is their exact product, rounded;
* `infinity_mul`, `mul_infinity`, `isNaN_mul_infinity` — products with an infinity;
* `level_mul` — the level of a product of doubles that are not negative;
* `le_mul_of_one_le`, `mul_of_le_one` — a factor from one on lowers nothing, and one up to one
  raises nothing.
-/

namespace CharacterSheet.Binary64

open Float.Model Float.Model.UnpackedFloat

variable {negative n₁ n₂ : Bool} {m c p b b₁ b₂ : Nat} {x y : Float}

/-! ### Rounding below the smallest unit -/

theorem unity_pos : 0 < unity := by
  obtain ⟨u, -, hu⟩ := exists_unity_eq
  exact hu ▸ Nat.two_pow_pos u

theorem binade_unity (hm : 0 < m) (c : Nat) :
    binade (m * 2 ^ c) unity = m.log2 + c - 1074 - 52 := by
  obtain ⟨u, hu, hunity⟩ := exists_unity_eq
  rw [binade, hunity, Nat.log2_eq_log_two, Nat.log_div_base_pow, ← Nat.log2_eq_log_two,
    log2_mul_two_pow hm, hu]

theorem shiftToTargetExponent_product (hp : p = m.log2 + c - 1074 - 52) (hc : c ≤ p + 1074) :
    shiftToTargetExponent Format.binary64 m (c - 2148) .exact =
      ((⟨m, false, false⟩ : ExtendedMantissa) >>> (p + 1074 - c), (p : Int) - 1074) := by
  have htarget :
      Format.binary64.targetExponent (totalExponent m (c - 2148)) = (p : Int) - 1074 := by
    simp only [Format.targetExponent, totalExponent, Format.mantissaBits, Format.minExponent]
    norm_num
    omega
  have hshift : ((p : Int) - 1074 - (c - 2148)).toNat = p + 1074 - c := by omega
  simp only [shiftToTargetExponent, shiftToExponent, htarget, hshift,
    ExtendedMantissa.ofMantissaAndAccuracy]
  congr 1
  omega

/-- Where the core library shifts a significand to the exponent of a quotient, and what is kept is
rounded as the quotient is, it gives the rounded quotient. -/
theorem ofParts_roundWithAccuracy {num den : Nat} {e : Int} {accuracy : Accuracy}
    {kept : ExtendedMantissa} (negative : Bool)
    (hshift : shiftToTargetExponent Format.binary64 m e accuracy =
      (kept, (binade num den : Int) - 1074))
    (hround : kept.roundedMantissa = divHalfEven num (den * 2 ^ binade num den)) :
    ofParts (roundWithAccuracy Format.binary64 (signOf negative) m e accuracy) =
      ofRatio negative num den := by
  obtain ⟨hhigh, hlow⟩ := divHalfEven_binade_bounds num den
  rw [ofRatio_eq_ofSignBits_ratioBits, ratioBits]
  generalize divHalfEven num (den * 2 ^ binade num den) = r at *
  generalize binade num den = p at *
  simp only [roundWithAccuracy, hshift, hround]
  rcases Nat.eq_zero_or_pos r with rfl | hpos
  · -- less than half a unit is rounded to zero
    obtain rfl : p = 0 := by omega
    exact ofParts_zero
  · rw [← ofParts_finiteOfBits (Nat.add_pos_right _ hpos), ← carry_eq hhigh hlow hpos]

theorem ofParts_roundWithAccuracy_product (negative : Bool) (hm : 0 < m)
    (hc : c ≤ m.log2 + c - 1074 - 52 + 1074) :
    ofParts (roundWithAccuracy Format.binary64 (signOf negative) m (c - 2148) .exact) =
      ofRatio negative (m * 2 ^ c) unity := by
  obtain ⟨p, hp⟩ : ∃ p, p = m.log2 + c - 1074 - 52 := ⟨_, rfl⟩
  rw [← hp] at hc
  have hbinade : binade (m * 2 ^ c) unity = p := (binade_unity hm c).trans hp.symm
  refine ofParts_roundWithAccuracy negative (hbinade ▸ shiftToTargetExponent_product hp hc) ?_
  obtain ⟨u, hu, hunity⟩ := exists_unity_eq
  have hexponent : u + p = p + 1074 - c + c := by omega
  rw [hbinade, hunity, ← Nat.pow_add, hexponent, Nat.pow_add,
    divHalfEven_mul_right _ _ (Nat.two_pow_pos c), roundedMantissa_shiftRight]

/-! ### Finite factors -/

theorem mul_eq_ofParts (x y : Float) :
    x * y = ofParts (UnpackedFloat.mul Format.binary64 x.toModel.unpack y.toModel.unpack) := rfl

theorem signOf_mul (n₁ n₂ : Bool) : signOf n₁ * signOf n₂ = signOf (n₁ != n₂) := by
  cases n₁ <;> cases n₂ <;> rfl

/-- The significand of a double whose unit is not the smallest one has its leading one. -/
theorem two_pow_le_significandOfBits (h : 0 < exponentOfBits b) : 2 ^ 52 ≤ significandOfBits b := by
  unfold exponentOfBits at h
  unfold significandOfBits
  split <;> omega

theorem mul_of_pos (h₁ : 0 < b₁) (h₂ : 0 < b₂) (hb₁ : b₁ < infinityBits) (hb₂ : b₂ < infinityBits) :
    ofSignBits n₁ b₁ * ofSignBits n₂ b₂ =
      ofRatio (n₁ != n₂) (magnitudeOfBits b₁ * magnitudeOfBits b₂) unity := by
  have hm₁ := significandOfBits_pos h₁
  have hm₂ := significandOfBits_pos h₂
  obtain ⟨m, hm⟩ : ∃ m, m = significandOfBits b₁ * significandOfBits b₂ := ⟨_, rfl⟩
  obtain ⟨c, hc⟩ : ∃ c, c = exponentOfBits b₁ + exponentOfBits b₂ := ⟨_, rfl⟩
  have hpos : 0 < m := hm ▸ Nat.mul_pos hm₁ hm₂
  have hmagnitude : magnitudeOfBits b₁ * magnitudeOfBits b₂ = m * 2 ^ c := by
    show significandOfBits b₁ * 2 ^ exponentOfBits b₁ *
      (significandOfBits b₂ * 2 ^ exponentOfBits b₂) = _
    rw [hm, hc, Nat.pow_add]
    ring
  have hexponent : ((exponentOfBits b₁ : Int) - 1074) + (exponentOfBits b₂ - 1074) = c - 2148 := by
    omega
  -- two small units mean that the product is counted in units below the smallest one
  have hshift : c ≤ m.log2 + c - 1074 - 52 + 1074 := by
    rcases Nat.eq_zero_or_pos c with h0 | hcpos
    · omega
    · have hfull : 2 ^ 52 ≤ m := by
        rcases Nat.eq_zero_or_pos (exponentOfBits b₁) with h0 | he₁
        · have he₂ : 0 < exponentOfBits b₂ := by omega
          exact (two_pow_le_significandOfBits he₂).trans (hm ▸ Nat.le_mul_of_pos_left _ hm₁)
        · exact (two_pow_le_significandOfBits he₁).trans (hm ▸ Nat.le_mul_of_pos_right _ hm₂)
      have hlog : 52 ≤ m.log2 := (Nat.le_log2 hpos.ne').2 hfull
      omega
  rw [mul_eq_ofParts, parts_ofSignBits h₁ hb₁, parts_ofSignBits h₂ hb₂, hmagnitude,
    ← ofParts_roundWithAccuracy_product _ hpos hshift, ← signOf_mul, ← hexponent, hm]
  rfl

theorem ratioBits_zero (den : Nat) : ratioBits 0 den = 0 := by
  rw [ratioBits, binade, Nat.zero_div, Nat.log2_zero]
  simp [divHalfEven]

theorem ofRatio_zero (negative : Bool) (den : Nat) :
    ofRatio negative 0 den = ofSignBits negative 0 := by
  rw [ofRatio_eq_ofSignBits_ratioBits, ratioBits_zero, Nat.zero_min]

theorem magnitudeOfBits_zero : magnitudeOfBits 0 = 0 := rfl

/-- The product of two finite doubles is their exact product, rounded. -/
theorem mul_eq_ofRatio (hx : x.isFinite) (hy : y.isFinite) :
    x * y = ofRatio (isNegative x != isNegative y) (magnitude x * magnitude y) unity := by
  obtain ⟨n₁, b₁, hb₁, rfl⟩ := exists_eq_ofSignBits hx
  obtain ⟨n₂, b₂, hb₂, rfl⟩ := exists_eq_ofSignBits hy
  rw [isNegative_ofSignBits hb₁.le, isNegative_ofSignBits hb₂.le, magnitude_ofSignBits hb₁.le,
    magnitude_ofSignBits hb₂.le]
  rcases b₁.eq_zero_or_pos with rfl | h₁
  · rw [magnitudeOfBits_zero, Nat.zero_mul, ofRatio_zero, mul_eq_ofParts, parts_ofSignBits_zero,
      ← ofParts_zero, ← signOf_mul]
    rcases b₂.eq_zero_or_pos with rfl | h₂
    · rw [parts_ofSignBits_zero]
      rfl
    · rw [parts_ofSignBits h₂ hb₂]
      rfl
  · rcases b₂.eq_zero_or_pos with rfl | h₂
    · rw [magnitudeOfBits_zero, Nat.mul_zero, ofRatio_zero, mul_eq_ofParts, parts_ofSignBits_zero,
        parts_ofSignBits h₁ hb₁, ← ofParts_zero, ← signOf_mul]
      rfl
    · exact mul_of_pos h₁ h₂ hb₁ hb₂

theorem isNaN_mul (hx : x.isFinite) (hy : y.isFinite) : (x * y).isNaN = false := by
  rw [mul_eq_ofRatio hx hy, ofRatio_eq_ofSignBits_ratioBits]
  exact isNaN_ofSignBits (min_le_right _ _)

/-! ### Infinite factors -/

theorem ofParts_infinity (n : Bool) : ofParts (.infinity (signOf n)) = infinity n := by
  rw [infinity, ← parts_ofSignBits_infinityBits, ofParts_unpack]

theorem infinity_mul (hy : y.isFinite) (h0 : 0 < lowBits y) (n : Bool) :
    infinity n * y = infinity (n != isNegative y) := by
  obtain ⟨n₂, b₂, hb₂, rfl⟩ := exists_eq_ofSignBits hy
  rw [lowBits_ofSignBits hb₂.le] at h0
  rw [isNegative_ofSignBits hb₂.le, ← ofParts_infinity (n != n₂), ← signOf_mul, infinity,
    mul_eq_ofParts, parts_ofSignBits_infinityBits, parts_ofSignBits h0 hb₂]
  rfl

theorem mul_infinity (hx : x.isFinite) (h0 : 0 < lowBits x) (n : Bool) :
    x * infinity n = infinity (isNegative x != n) := by
  obtain ⟨n₁, b₁, hb₁, rfl⟩ := exists_eq_ofSignBits hx
  rw [lowBits_ofSignBits hb₁.le] at h0
  rw [isNegative_ofSignBits hb₁.le, ← ofParts_infinity (n₁ != n), ← signOf_mul, infinity,
    mul_eq_ofParts, parts_ofSignBits_infinityBits, parts_ofSignBits h0 hb₁]
  rfl

/-- Nothing taken infinitely often has no value. -/
theorem isNaN_mul_infinity (hx : x.isFinite) (h0 : lowBits x = 0) (n : Bool) :
    (x * infinity n).isNaN = true := by
  obtain ⟨n₁, b₁, hb₁, rfl⟩ := exists_eq_ofSignBits hx
  rw [lowBits_ofSignBits hb₁.le] at h0
  subst h0
  rw [infinity, mul_eq_ofParts, parts_ofSignBits_infinityBits, parts_ofSignBits_zero]
  exact isNaN_ofParts_notANumber

/-! ### The order of products -/

theorem level_nonneg (hx : x.isNaN = false) (h0 : 0 ≤ x) : 0 ≤ level x :=
  (le_iff_level (by decide) hx).1 h0

/-- A double that is not negative has no sign, unless it is a zero. -/
theorem isNegative_eq_false_or (h0 : 0 ≤ level x) : isNegative x = false ∨ lowBits x = 0 := by
  cases hn : isNegative x with
  | false => exact .inl rfl
  | true =>
    rw [level, hn, signed_true] at h0
    exact .inr (by omega)

theorem level_of_nonneg (h0 : 0 ≤ level x) : level x = lowBits x := by
  rw [level]
  rcases isNegative_eq_false_or h0 with hn | hzero
  · rw [hn, signed_false]
  · rw [hzero, signed_zero, Nat.cast_zero]

theorem magnitude_eq (hx : x.isFinite) : magnitude x = magnitudeOfBits (lowBits x) := by
  obtain ⟨n, b, hb, rfl⟩ := exists_eq_ofSignBits hx
  rw [magnitude_ofSignBits hb.le, lowBits_ofSignBits hb.le]

theorem magnitude_one : magnitude 1 = unity := by decide +kernel

theorem magnitude_le_magnitude (hx : x.isFinite) (hy : y.isFinite) (h0 : 0 ≤ level x)
    (h : x ≤ y) : magnitude x ≤ magnitude y := by
  have hlevel := (le_iff_level (isNaN_of_isFinite hx) (isNaN_of_isFinite hy)).1 h
  have h0y : 0 ≤ level y := h0.trans hlevel
  rw [level_of_nonneg h0, level_of_nonneg h0y] at hlevel
  rw [magnitude_eq hx, magnitude_eq hy]
  exact magnitudeOfBits_strictMono.monotone (by omega)

/-- Where both factors are not negative, a product is at the level of the rounded exact product. A
zero may have a sign, but then the product is a zero too. -/
theorem level_mul (hx : x.isFinite) (hy : y.isFinite) (h0x : 0 ≤ level x) (h0y : 0 ≤ level y) :
    level (x * y) = (min (ratioBits (magnitude x * magnitude y) unity) infinityBits : Nat) := by
  rw [mul_eq_ofRatio hx hy]
  rcases isNegative_eq_false_or h0x with hnx | hzero
  · rcases isNegative_eq_false_or h0y with hny | hzero
    · rw [hnx, hny, ofRatio_eq_ofSignBits_ratioBits, level_ofSignBits (min_le_right _ _)]
      rfl
    · rw [magnitude_eq hy, hzero, magnitudeOfBits_zero, Nat.mul_zero, ratioBits_zero, ofRatio_zero,
        level_ofSignBits (Nat.zero_le _), signed_zero, Nat.zero_min, Nat.cast_zero]
  · rw [magnitude_eq hx, hzero, magnitudeOfBits_zero, Nat.zero_mul, ratioBits_zero, ofRatio_zero,
      level_ofSignBits (Nat.zero_le _), signed_zero, Nat.zero_min, Nat.cast_zero]

/-- A factor from one on lowers nothing. -/
theorem le_mul_of_one_le (hx : x.isFinite) (hy : y.isFinite) (h0 : 0 ≤ x) (h1 : 1 ≤ y) :
    x ≤ x * y := by
  have h0x := level_nonneg (isNaN_of_isFinite hx) h0
  have hone := (le_iff_level (by decide) (isNaN_of_isFinite hy)).1 h1
  have h0y : 0 ≤ level y := le_trans (by decide) hone
  have hunity : unity ≤ magnitude y :=
    magnitude_one ▸ magnitude_le_magnitude (by decide) hy (by decide) h1
  rw [le_iff_level (isNaN_of_isFinite hx) (isNaN_mul hx hy), level_mul hx hy h0x h0y,
    level_of_nonneg h0x, Int.ofNat_le]
  refine le_ratioBits unity_pos (lowBits_lt_of_isFinite hx) ?_
  rw [← magnitude_eq hx]
  exact Nat.mul_le_mul_left _ hunity

/-- What is taken up to once is finite, not negative, and no larger than before. -/
theorem mul_of_le_one (hx : x.isFinite) (hy : y.isFinite) (h0x : 0 ≤ level x) (h0y : 0 ≤ level y)
    (h1 : y ≤ 1) : (x * y).isFinite ∧ 0 ≤ level (x * y) ∧ magnitude (x * y) ≤ magnitude x := by
  have hnumber := isNaN_mul hx hy
  have hlevel := level_mul hx hy h0x h0y
  have h0 : 0 ≤ level (x * y) := hlevel ▸ Int.natCast_nonneg _
  have hunity : magnitude y ≤ unity :=
    magnitude_one ▸ magnitude_le_magnitude hy (by decide) h0y h1
  have hbits : lowBits (x * y) ≤ lowBits x := by
    rw [level_of_nonneg h0, Int.ofNat_inj] at hlevel
    rw [hlevel]
    refine ratioBits_le unity_pos (lowBits_lt_of_isFinite hx) ?_
    rw [← magnitude_eq hx]
    exact Nat.mul_le_mul_left _ hunity
  have hfinite : (x * y).isFinite :=
    (isFinite_iff_lowBits_lt hnumber).2 (hbits.trans_lt (lowBits_lt_of_isFinite hx))
  refine ⟨hfinite, h0, ?_⟩
  rw [magnitude_eq hfinite, magnitude_eq hx]
  exact magnitudeOfBits_strictMono.monotone hbits

end CharacterSheet.Binary64
