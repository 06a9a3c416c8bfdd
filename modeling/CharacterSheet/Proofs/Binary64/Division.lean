import CharacterSheet.Proofs.Binary64.Whole

/-!
# The quotient of two doubles

The significand of the dividend is extended until dividing it leaves fifty-three bits or reaches the
smallest unit, and the remainder tells which way to round. The exponent is only estimated from the
lengths of both significands, so that one bit more may be left.

* `shiftToTargetExponent_fraction` — what is kept of a fraction, and at which exponent;
* `div_eq_ofRatio` — the quotient of two finite doubles is their exact quotient, rounded;
* `isNearest_div` — it is the double nearest to the exact quotient.
-/

namespace CharacterSheet.Binary64

open Float.Model Float.Model.UnpackedFloat

variable {negative n₁ n₂ : Bool} {num den a b p m₁ m₂ e₁ e₂ b₁ b₂ : Nat} {t : Int} {x y : Float}

/-! ### Rounding a fraction -/

theorem ofMantissaAndAccuracy_fraction (hden : 0 < den) (num : Nat) :
    ExtendedMantissa.ofMantissaAndAccuracy (num / den) (accuracyOfFraction (num % den) den) =
      extendedFraction num den := by
  unfold accuracyOfFraction extendedFraction
  split
  · next h0 =>
    rw [h0, decide_eq_false (by omega), decide_eq_false (by omega)]
    rfl
  · next h0 =>
    rcases lt_trichotomy (2 * (num % den)) den with h | h | h
    · rw [Nat.compare_eq_lt.2 h, decide_eq_false (by omega), decide_eq_true (by omega)]
      rfl
    · rw [Nat.compare_eq_eq.2 h, decide_eq_true (by omega), decide_eq_false (by omega)]
      rfl
    · rw [Nat.compare_eq_gt.2 h, decide_eq_true (by omega), decide_eq_true (by omega)]
      rfl

theorem shiftToTargetExponent_fraction (hden : 0 < den)
    (hp : (p : Int) = max ((num / den).log2 + t + 1074 - 52) 0) (ht : t + 1074 ≤ p) :
    shiftToTargetExponent Format.binary64 (num / den) t (accuracyOfFraction (num % den) den) =
      (extendedFraction num (den * 2 ^ (p - (t + 1074)).toNat), (p : Int) - 1074) := by
  have htarget :
      Format.binary64.targetExponent (totalExponent (num / den) t) = (p : Int) - 1074 := by
    simp only [Format.targetExponent, totalExponent, Format.mantissaBits, Format.minExponent]
    norm_num
    omega
  have hshift : ((p : Int) - 1074 - t).toNat = (p - (t + 1074)).toNat := by omega
  simp only [shiftToTargetExponent, shiftToExponent, htarget, hshift,
    ofMantissaAndAccuracy_fraction hden, shiftRight_extendedFraction hden]
  congr 1
  omega

/-! ### The exponent of a quotient -/

theorem log2_mul_two_pow_div (hden : 0 < den) (hle : den ≤ num) (c : Nat) :
    (num * 2 ^ c / den).log2 = (num / den).log2 + c := by
  have hpos : 0 < num / den := Nat.div_pos hle hden
  have hlow := Nat.log2_self_le hpos.ne'
  have hhigh : num / den < 2 ^ ((num / den).log2 + 1) := Nat.lt_log2_self
  rw [Nat.le_div_iff_mul_le hden] at hlow
  rw [Nat.div_lt_iff_lt_mul hden] at hhigh
  rw [Nat.log2_eq_iff (Nat.div_pos (hle.trans (Nat.le_mul_of_pos_right _ (Nat.two_pow_pos c)))
    hden).ne', Nat.le_div_iff_mul_le hden, Nat.div_lt_iff_lt_mul hden]
  constructor
  · calc 2 ^ ((num / den).log2 + c) * den = 2 ^ (num / den).log2 * den * 2 ^ c := by
          rw [Nat.pow_add]
          ring
      _ ≤ num * 2 ^ c := Nat.mul_le_mul_right _ hlow
  · calc num * 2 ^ c < 2 ^ ((num / den).log2 + 1) * den * 2 ^ c :=
          Nat.mul_lt_mul_of_pos_right hhigh (Nat.two_pow_pos c)
      _ = 2 ^ ((num / den).log2 + c + 1) * den := by
          rw [Nat.pow_succ, Nat.pow_succ, Nat.pow_add]
          ring

theorem binade_mul_div (hden : 0 < den) (hfull : a = 0 ∨ den ≤ num) :
    binade (num * 2 ^ a) (den * 2 ^ b) = (num / den).log2 + a - b - 52 := by
  have hlog : (num * 2 ^ a / den).log2 = (num / den).log2 + a := by
    rcases hfull with rfl | hle
    · rw [Nat.pow_zero, Nat.mul_one, Nat.add_zero]
    · exact log2_mul_two_pow_div hden hle a
  have hcut (k : Nat) : (k / 2 ^ b).log2 = k.log2 - b := by
    rw [Nat.log2_eq_log_two, Nat.log2_eq_log_two, Nat.log_div_base_pow]
  rw [binade, ← Nat.div_div_eq_div_mul, hcut, hlog]

/-- The core library rounds a fraction as `ofRatio` does, provided that its whole part is of full
width wherever it is counted in more than the smallest unit. -/
theorem ofParts_roundWithAccuracy_fraction (negative : Bool) (hden : 0 < den)
    (ht : t + 1074 = (a : Int) - b) (hfull : a = 0 ∨ 2 ^ 52 * den ≤ num) :
    ofParts (roundWithAccuracy Format.binary64 (signOf negative) (num / den) t
        (accuracyOfFraction (num % den) den)) =
      ofRatio negative (num * 2 ^ a) (den * 2 ^ b) := by
  have hbinade : binade (num * 2 ^ a) (den * 2 ^ b) = (num / den).log2 + a - b - 52 :=
    binade_mul_div hden (hfull.imp_right fun h => by omega)
  have hlog : a = 0 ∨ 52 ≤ (num / den).log2 := by
    refine hfull.imp_right fun h => ?_
    have hdiv : 2 ^ 52 ≤ num / den := (Nat.le_div_iff_mul_le hden).2 h
    exact (Nat.le_log2 (by omega)).2 hdiv
  have hle : t + 1074 ≤ (binade (num * 2 ^ a) (den * 2 ^ b) : Int) := by omega
  refine ofParts_roundWithAccuracy negative
    (shiftToTargetExponent_fraction hden (by omega) hle) ?_
  rw [roundedMantissa_extendedFraction (Nat.mul_pos hden (Nat.two_pow_pos _)),
    ← divHalfEven_mul_right num _ (Nat.two_pow_pos a)]
  generalize binade (num * 2 ^ a) (den * 2 ^ b) = p at *
  have hexponent : (p - (t + 1074)).toNat + a = b + p := by omega
  rw [Nat.mul_assoc den, Nat.mul_assoc den, ← Nat.pow_add, ← Nat.pow_add, hexponent]

/-! ### Finite operands -/

theorem div_eq_ofParts (x y : Float) :
    x / y = ofParts (UnpackedFloat.div Format.binary64 x.toModel.unpack y.toModel.unpack) := rfl

theorem signOf_div (n₁ n₂ : Bool) : signOf n₁ / signOf n₂ = signOf (n₁ != n₂) := by
  cases n₁ <;> cases n₂ <;> rfl

/-- The dividend is extended far enough: the whole part of the quotient is of full width, unless it
is counted in the smallest unit or in less. -/
theorem divCore_eq (h₁ : 0 < m₁) (m₂ e₁ e₂ : Nat) : ∃ s : Nat, ∃ t : Int,
    t = (e₁ : Int) - e₂ - s ∧ (t ≤ -1074 ∨ 2 ^ 52 * m₂ ≤ m₁ * 2 ^ s) ∧
    divCore Format.binary64 m₁ (e₁ - 1074) m₂ (e₂ - 1074) =
      (m₁ * 2 ^ s / m₂, t, accuracyOfFraction (m₁ * 2 ^ s % m₂) m₂) := by
  obtain ⟨t, ht⟩ : ∃ t, t = min ((e₁ - 1074 : Int) - (e₂ - 1074)) (Format.binary64.targetExponent
      (totalExponent m₁ (e₁ - 1074) - totalExponent m₂ (e₂ - 1074))) := ⟨_, rfl⟩
  refine ⟨((e₁ - 1074 : Int) - (e₂ - 1074) - t).toNat, t, ?_, ?_, ?_⟩
  · omega
  · have htarget : t ≤ -1074 ∨ m₂.log2 + 53 ≤ m₁.log2 +
        ((e₁ - 1074 : Int) - (e₂ - 1074) - t).toNat := by
      simp only [Format.targetExponent, totalExponent, Format.mantissaBits,
        Format.minExponent] at ht
      norm_num at ht
      omega
    refine htarget.imp_right fun hlog => ?_
    generalize ((e₁ - 1074 : Int) - (e₂ - 1074) - t).toNat = s at *
    calc 2 ^ 52 * m₂ ≤ 2 ^ 52 * 2 ^ (m₂.log2 + 1) := Nat.mul_le_mul_left _ Nat.lt_log2_self.le
      _ = 2 ^ (m₂.log2 + 53) := by rw [← Nat.pow_add, Nat.add_comm, Nat.add_assoc]
      _ ≤ 2 ^ (m₁.log2 + s) := Nat.pow_le_pow_right Nat.two_pos hlog
      _ = 2 ^ m₁.log2 * 2 ^ s := Nat.pow_add 2 _ s
      _ ≤ m₁ * 2 ^ s := Nat.mul_le_mul_right _ (Nat.log2_self_le h₁.ne')
  · simp only [divCore, ← ht, Nat.shiftLeft_eq]

theorem div_of_pos (h₁ : 0 < b₁) (h₂ : 0 < b₂) (hb₁ : b₁ < infinityBits) (hb₂ : b₂ < infinityBits) :
    ofSignBits n₁ b₁ / ofSignBits n₂ b₂ =
      ofRatio (n₁ != n₂) (magnitudeOfBits b₁ * unity) (magnitudeOfBits b₂) := by
  have hm₁ := significandOfBits_pos h₁
  have hm₂ := significandOfBits_pos h₂
  obtain ⟨s, t, ht, hfull, hcore⟩ :=
    divCore_eq hm₁ (significandOfBits b₂) (exponentOfBits b₁) (exponentOfBits b₂)
  obtain ⟨u, hu, hunity⟩ := exists_unity_eq
  obtain ⟨a, b, hab, ha⟩ : ∃ a b : Nat, t + 1074 = (a : Int) - b ∧ (t ≤ -1074 → a = 0) :=
    ⟨(t + 1074).toNat, (-(t + 1074)).toNat, by omega, by omega⟩
  have hparts : ofSignBits n₁ b₁ / ofSignBits n₂ b₂ =
      ofRatio (n₁ != n₂) (significandOfBits b₁ * 2 ^ s * 2 ^ a) (significandOfBits b₂ * 2 ^ b) := by
    rw [div_eq_ofParts, parts_ofSignBits h₁ hb₁, parts_ofSignBits h₂ hb₂,
      ← ofParts_roundWithAccuracy_fraction _ hm₂ hab (hfull.imp_left ha), ← signOf_div]
    simp only [finiteOfBits, UnpackedFloat.div, hcore]
  -- the same quotient, counted in smallest units
  have hnum : significandOfBits b₁ * 2 ^ s * 2 ^ a * 2 ^ exponentOfBits b₂ =
      magnitudeOfBits b₁ * unity * 2 ^ b := by
    have hexponent : s + a + exponentOfBits b₂ = exponentOfBits b₁ + u + b := by omega
    calc significandOfBits b₁ * 2 ^ s * 2 ^ a * 2 ^ exponentOfBits b₂
        = significandOfBits b₁ * 2 ^ (s + a + exponentOfBits b₂) := by
          rw [Nat.pow_add, Nat.pow_add]
          ring
      _ = significandOfBits b₁ * 2 ^ exponentOfBits b₁ * 2 ^ u * 2 ^ b := by
          rw [hexponent, Nat.pow_add, Nat.pow_add]
          ring
      _ = magnitudeOfBits b₁ * unity * 2 ^ b := by
          rw [hunity]
          rfl
  have hden : significandOfBits b₂ * 2 ^ b * 2 ^ exponentOfBits b₂ =
      magnitudeOfBits b₂ * 2 ^ b := Nat.mul_right_comm _ _ _
  rw [hparts, ← ofRatio_mul_right _ _ (Nat.two_pow_pos (exponentOfBits b₂)), hnum, hden,
    ofRatio_mul_right _ _ (Nat.two_pow_pos b)]

/-- The quotient of two finite doubles is their exact quotient, rounded. -/
theorem div_eq_ofRatio (hx : x.isFinite) (hy : y.isFinite) (h0 : 0 < lowBits y) :
    x / y = ofRatio (isNegative x != isNegative y) (magnitude x * unity) (magnitude y) := by
  obtain ⟨n₁, b₁, hb₁, rfl⟩ := exists_eq_ofSignBits hx
  obtain ⟨n₂, b₂, hb₂, rfl⟩ := exists_eq_ofSignBits hy
  rw [lowBits_ofSignBits hb₂.le] at h0
  rw [isNegative_ofSignBits hb₁.le, isNegative_ofSignBits hb₂.le, magnitude_ofSignBits hb₁.le,
    magnitude_ofSignBits hb₂.le]
  rcases b₁.eq_zero_or_pos with rfl | h₁
  · rw [magnitudeOfBits_zero, Nat.zero_mul, ofRatio_zero, div_eq_ofParts, parts_ofSignBits_zero,
      parts_ofSignBits h0 hb₂, ← ofParts_zero, ← signOf_div]
    rfl
  · exact div_of_pos h₁ h0 hb₁ hb₂

theorem signedRat_div_signedRat (n₁ n₂ : Bool) (r q : ℚ) :
    signedRat n₁ r / signedRat n₂ q = signedRat (n₁ != n₂) (r / q) := by
  cases n₁ <;> cases n₂ <;> simp [signedRat, neg_div, div_neg]

/-- The quotient of two doubles is the double nearest to the exact quotient. -/
theorem isNearest_div (hx : x.isFinite) (hy : y.isFinite) (h0 : toRat y ≠ 0)
    (hfinite : (x / y).isFinite) : IsNearest (toRat x / toRat y) (x / y) := by
  have hbits : 0 < lowBits y := Nat.pos_of_ne_zero (mt (lowBits_eq_zero_iff hy).1 h0)
  have hmagnitude : 0 < magnitude y := by
    rw [magnitude_eq hy]
    exact magnitudeOfBits_pos hbits
  rw [div_eq_ofRatio hx hy hbits] at hfinite ⊢
  have hquotient : signedRat (isNegative x != isNegative y)
      ((magnitude x * unity : Nat) / (magnitude y * unity)) = toRat x / toRat y := by
    rw [toRat_eq_signedRat, toRat_eq_signedRat, signedRat_div_signedRat, Nat.cast_mul,
      mul_div_mul_right _ _ unity_pos_rat.ne', div_div_div_cancel_right₀ unity_pos_rat.ne']
  exact hquotient ▸ isNearest_ofRatio hmagnitude hfinite

end CharacterSheet.Binary64
