import CharacterSheet.Proofs.Binary64.Unpacked

/-!
# Rounding to a double

The core library rounds by shifting a significand to the right and keeping two bits of what falls
off. This is division with rounding half to even, so that what it makes of a whole number of
smallest units is the double that `ofRatio` gives.

* `roundedBits`, `ofRatio_eq_ofSignBits` — the bits of a rounded number of units;
* `extendedFraction`, `shiftRight_extendedFraction` — what a shift keeps is what rounding needs;
* `round_eq` — the core library rounds to these bits.
-/

namespace CharacterSheet.Binary64

open Float.Model Float.Model.UnpackedFloat

variable {negative : Bool} {den m k p e : Nat}

/-- The bits below the sign of the double nearest to a number of units, before they are cut off at
the infinity. -/
def roundedBits (k : Nat) : Nat :=
  binade k 1 * 2 ^ 52 + divHalfEven k (2 ^ binade k 1)

theorem ofRatio_eq_ofSignBits (negative : Bool) (k : Nat) :
    ofRatio negative k 1 = ofSignBits negative (min (roundedBits k) infinityBits) := by
  simp only [ofRatio, roundedBits, Nat.pow_eq, leadingOne_eq, Nat.one_mul]

/-! ### Shifting a significand -/

/-- What rounding needs of a fraction: the whole part, whether one half is reached, and whether the
rest is something other than nothing or one half. -/
def extendedFraction (num den : Nat) : ExtendedMantissa :=
  ⟨num / den, decide (den ≤ 2 * (num % den)),
    decide (2 * (num % den) ≠ 0 ∧ 2 * (num % den) ≠ den)⟩

theorem extendedFraction_one (m : Nat) : extendedFraction m 1 = ⟨m, false, false⟩ := by
  simp [extendedFraction, Nat.mod_one]

theorem shiftRightOne_extendedFraction (hden : 0 < den) (num : Nat) :
    (extendedFraction num den).shiftRightOne = extendedFraction num (den * 2) := by
  have hdiv : num / (den * 2) = num / den / 2 := by rw [Nat.div_div_eq_div_mul]
  have hmod : num % (den * 2) = num % den + den * (num / den % 2) := Nat.mod_mul
  have hlt : num % den < den := Nat.mod_lt num hden
  rw [extendedFraction, extendedFraction, ExtendedMantissa.shiftRightOne,
    ExtendedMantissa.mk.injEq, hdiv, hmod]
  generalize num % den = r at *
  refine ⟨rfl, Bool.eq_iff_iff.2 ?_, Bool.eq_iff_iff.2 ?_⟩
  · simp only [bne_iff_ne, decide_eq_true_eq]
    rcases Nat.mod_two_eq_zero_or_one (num / den) with h | h <;> rw [h] <;> omega
  · simp only [Bool.or_eq_true, decide_eq_true_eq]
    rcases Nat.mod_two_eq_zero_or_one (num / den) with h | h <;> rw [h] <;> omega

/-- A shift divides by a power of two, and loses nothing that rounding needs. -/
theorem shiftRight_extendedFraction (hden : 0 < den) (num k : Nat) :
    extendedFraction num den >>> k = extendedFraction num (den * 2 ^ k) := by
  show k.repeat ExtendedMantissa.shiftRightOne (extendedFraction num den) = _
  induction k with
  | zero => rw [Nat.pow_zero, Nat.mul_one, Nat.repeat]
  | succ k ih =>
    rw [Nat.repeat, ih, shiftRightOne_extendedFraction (Nat.mul_pos hden (Nat.two_pow_pos k)),
      Nat.mul_assoc, Nat.pow_succ]

theorem roundedMantissa_extendedFraction (hden : 0 < den) (num : Nat) :
    (extendedFraction num den).roundedMantissa = divHalfEven num den := by
  rw [extendedFraction, ExtendedMantissa.roundedMantissa, divHalfEven]
  dsimp only
  -- below one half, above it, and one half itself
  split
  · next hlt =>
    have hround : decide (den ≤ 2 * (num % den)) = false := decide_eq_false (by omega)
    rw [hround]
    cases decide (2 * (num % den) ≠ 0 ∧ 2 * (num % den) ≠ den) <;> rfl
  · next hlt =>
    have hround : decide (den ≤ 2 * (num % den)) = true := decide_eq_true (by omega)
    rw [hround]
    split
    · next hgt =>
      have hsticky : decide (2 * (num % den) ≠ 0 ∧ 2 * (num % den) ≠ den) = true :=
        decide_eq_true (by omega)
      rw [hsticky]
      rfl
    · next hgt =>
      have hsticky : decide (2 * (num % den) ≠ 0 ∧ 2 * (num % den) ≠ den) = false :=
        decide_eq_false (by omega)
      rw [hsticky]
      rfl

theorem roundedMantissa_shiftRight (m k : Nat) :
    ((⟨m, false, false⟩ : ExtendedMantissa) >>> k).roundedMantissa = divHalfEven m (2 ^ k) := by
  rw [← extendedFraction_one, shiftRight_extendedFraction Nat.one_pos, Nat.one_mul,
    roundedMantissa_extendedFraction (Nat.two_pow_pos k)]

/-! ### The exponent of a double -/

theorem log2_mul_two_pow (hm : 0 < m) (e : Nat) : (m * 2 ^ e).log2 = m.log2 + e := by
  rw [Nat.log2_eq_iff (by positivity), Nat.pow_add, Nat.add_right_comm, Nat.pow_add]
  exact ⟨Nat.mul_le_mul_right _ (Nat.log2_self_le hm.ne'),
    Nat.mul_lt_mul_of_pos_right Nat.lt_log2_self (Nat.two_pow_pos e)⟩

/-- The exponent that rounding aims at, counted from that of the smallest unit. -/
theorem targetExponent_eq (m e : Nat) :
    Format.binary64.targetExponent (totalExponent m (e - 1074)) =
      ((m.log2 + e - 52 : Nat) : Int) - 1074 := by
  simp only [Format.targetExponent, totalExponent, Format.mantissaBits, Format.minExponent]
  norm_num
  omega

theorem shiftToTargetExponent_eq (h : e ≤ m.log2 + e - 52) :
    shiftToTargetExponent Format.binary64 m (e - 1074) .exact =
      ((⟨m, false, false⟩ : ExtendedMantissa) >>> (m.log2 + e - 52 - e),
        ((m.log2 + e - 52 : Nat) : Int) - 1074) := by
  simp only [shiftToTargetExponent, shiftToExponent, targetExponent_eq,
    ExtendedMantissa.ofMantissaAndAccuracy]
  have hshift : (((m.log2 + e - 52 : Nat) : Int) - 1074 - ((e : Int) - 1074)).toNat =
      m.log2 + e - 52 - e := by omega
  rw [hshift]
  congr 1
  omega

theorem shiftToTargetExponent_of_lt (hm : m < 2 ^ 53) (e : Nat) :
    shiftToTargetExponent Format.binary64 m (e - 1074) .exact =
      (⟨m, false, false⟩, (e : Int) - 1074) := by
  have hlog : m.log2 ≤ 52 := by
    rcases Nat.eq_zero_or_pos m with rfl | hpos
    · decide
    · exact Nat.le_of_lt_succ ((Nat.log2_lt hpos.ne').2 hm)
  simp only [shiftToTargetExponent, shiftToExponent, targetExponent_eq,
    ExtendedMantissa.ofMantissaAndAccuracy]
  have hshift : (((m.log2 + e - 52 : Nat) : Int) - 1074 - ((e : Int) - 1074)).toNat = 0 := by omega
  rw [hshift]
  congr 1
  omega

/-- A significand that rounding has filled up takes one more shift. -/
theorem shiftToTargetExponent_two_pow (e : Nat) :
    shiftToTargetExponent Format.binary64 (2 ^ 53) (e - 1074) .exact =
      (⟨2 ^ 52, false, false⟩, (e : Int) + 1 - 1074) := by
  have hlog : (2 ^ 53).log2 = 53 := Nat.log2_two_pow
  rw [shiftToTargetExponent_eq (by omega), hlog]
  have hshift : 53 + e - 52 - e = 1 := by omega
  rw [hshift]
  congr 1
  omega

theorem div_le_divHalfEven (num den : Nat) : num / den ≤ divHalfEven num den := by
  unfold divHalfEven
  dsimp only
  split
  · rfl
  · split <;> omega

theorem divHalfEven_le (num den : Nat) : divHalfEven num den ≤ num / den + 1 := by
  unfold divHalfEven
  dsimp only
  split
  · omega
  · split <;> omega

theorem parts_of_bits (hm : m < 2 ^ 53) (hp : p = 0 ∨ 2 ^ 52 ≤ m) :
    significandOfBits (p * 2 ^ 52 + m) = m ∧ exponentOfBits (p * 2 ^ 52 + m) = p := by
  unfold significandOfBits exponentOfBits
  split <;> omega

theorem magnitudeOfBits_of_parts (hm : m < 2 ^ 53) (hp : p = 0 ∨ 2 ^ 52 ≤ m) :
    magnitudeOfBits (p * 2 ^ 52 + m) = m * 2 ^ p := by
  obtain ⟨hsignificand, hexponent⟩ := parts_of_bits hm hp
  show significandOfBits _ * 2 ^ exponentOfBits _ = _
  rw [hsignificand, hexponent]

theorem finiteOfBits_eq (hm : m < 2 ^ 53) (hp : p = 0 ∨ 2 ^ 52 ≤ m) (h0 : 0 < m) :
    finiteOfBits negative (p * 2 ^ 52 + m) (by omega) =
      .finite (signOf negative) m (p - 1074) h0 := by
  obtain ⟨hsignificand, hexponent⟩ := parts_of_bits hm hp
  exact finite_congr hsignificand (by rw [hexponent])

/-- A significand above its last place, divided down to that place. -/
theorem div_two_pow_bounds (hm : 0 < m) (hp : p = m.log2 + e - 52) (he : e ≤ p) :
    m / 2 ^ (p - e) < 2 ^ 53 ∧ (p = 0 ∨ 2 ^ 52 ≤ m / 2 ^ (p - e)) := by
  constructor
  · rw [Nat.div_lt_iff_lt_mul (Nat.two_pow_pos _), ← Nat.pow_add]
    exact Nat.lt_log2_self.trans_le (Nat.pow_le_pow_right (by norm_num) (by omega))
  · rcases Nat.eq_zero_or_pos p with h0 | hpos
    · exact .inl h0
    · refine .inr ?_
      rw [Nat.le_div_iff_mul_le (Nat.two_pow_pos _), ← Nat.pow_add]
      exact (Nat.pow_le_pow_right (by norm_num) (by omega)).trans (Nat.log2_self_le hm.ne')

/-- A rounded significand is shifted once more if it is full, and then it is a double's. -/
theorem carry_eq {r : Nat} (hr : r ≤ 2 ^ 53) (hp : p = 0 ∨ 2 ^ 52 ≤ r) (h0 : 0 < r) :
    (let shifted := shiftToTargetExponent Format.binary64 r (p - 1074) .exact
     if h : shifted.1.mantissa = 0 then .zero (signOf negative)
     else .finite (signOf negative) shifted.1.mantissa shifted.2 (Nat.pos_of_ne_zero h)) =
      finiteOfBits negative (p * 2 ^ 52 + r) (by omega) := by
  rcases Nat.lt_or_eq_of_le hr with hr | rfl
  · rw [shiftToTargetExponent_of_lt hr, finiteOfBits_eq hr hp h0]
    exact dif_neg h0.ne'
  · rw [shiftToTargetExponent_two_pow]
    have hbits : p * 2 ^ 52 + 2 ^ 53 = (p + 1) * 2 ^ 52 + 2 ^ 52 := by ring
    simp only [hbits]
    rw [finiteOfBits_eq (by norm_num) (.inr le_rfl) (by norm_num)]
    rfl

theorem divHalfEven_bounds (hm : 0 < m) (hp : p = m.log2 + e - 52) (he : e ≤ p) :
    divHalfEven m (2 ^ (p - e)) ≤ 2 ^ 53 ∧ (p = 0 ∨ 2 ^ 52 ≤ divHalfEven m (2 ^ (p - e))) ∧
      0 < divHalfEven m (2 ^ (p - e)) := by
  obtain ⟨hhigh, hlow⟩ := div_two_pow_bounds hm hp he
  have hle := divHalfEven_le m (2 ^ (p - e))
  have hge := div_le_divHalfEven m (2 ^ (p - e))
  refine ⟨by omega, by omega, ?_⟩
  rcases hlow with rfl | hlow
  · rw [Nat.zero_sub, Nat.pow_zero, divHalfEven_one]
    exact hm
  · omega

theorem roundWithAccuracy_eq (hm : 0 < m) (hp : p = m.log2 + e - 52) (he : e ≤ p)
    (h0 : 0 < p * 2 ^ 52 + divHalfEven m (2 ^ (p - e))) :
    roundWithAccuracy Format.binary64 (signOf negative) m (e - 1074) .exact =
      finiteOfBits negative (p * 2 ^ 52 + divHalfEven m (2 ^ (p - e))) h0 := by
  obtain ⟨hhigh, hlow, hpos⟩ := divHalfEven_bounds hm hp he
  subst hp
  simp only [roundWithAccuracy, shiftToTargetExponent_eq he, roundedMantissa_shiftRight]
  exact carry_eq hhigh hlow hpos

theorem roundedBits_eq (hm : 0 < m) (hp : p = m.log2 + e - 52) (he : e ≤ p) :
    roundedBits (m * 2 ^ e) = p * 2 ^ 52 + divHalfEven m (2 ^ (p - e)) := by
  have hbinade : binade (m * 2 ^ e) 1 = p := by
    rw [binade, Nat.div_one, log2_mul_two_pow hm, hp]
  have hpow : 2 ^ p = 2 ^ (p - e) * 2 ^ e := by rw [← Nat.pow_add, Nat.sub_add_cancel he]
  rw [roundedBits, hbinade, hpow, divHalfEven_mul_right _ _ (Nat.two_pow_pos e)]

theorem roundedBits_pos (hm : 0 < m) : 0 < roundedBits m := by
  have hp : m.log2 - 52 = m.log2 + 0 - 52 := rfl
  have heq := roundedBits_eq hm hp (Nat.zero_le _)
  rw [Nat.pow_zero, Nat.mul_one] at heq
  rw [heq]
  have := (divHalfEven_bounds hm hp (Nat.zero_le _)).2.2
  omega

/-- Rounding in the core library gives the double with the rounded bits. -/
theorem round_eq (hm : 0 < m) (h0 : 0 < roundedBits (m * 2 ^ e)) :
    UnpackedFloat.round Format.binary64 (signOf negative) m (e - 1074) =
      finiteOfBits negative (roundedBits (m * 2 ^ e)) h0 := by
  -- the significand may have to be extended before it is cut
  have hscale : ∃ m' e' : Nat, 0 < m' ∧ e' ≤ m'.log2 + e' - 52 ∧ m' * 2 ^ e' = m * 2 ^ e ∧
      decreaseExponent m (e - 1074) (Format.binary64.targetExponent (totalExponent m (e - 1074))) =
        (m', (e' : Int) - 1074) := by
    rw [targetExponent_eq, decreaseExponent]
    refine ⟨m * 2 ^ (e - (m.log2 + e - 52)), min e (m.log2 + e - 52), by positivity, ?_, ?_, ?_⟩
    · rw [log2_mul_two_pow hm]
      omega
    · rw [Nat.mul_assoc, ← Nat.pow_add]
      congr 2
      omega
    · have hshift : ((e : Int) - 1074 - (((m.log2 + e - 52 : Nat) : Int) - 1074)).toNat =
          e - (m.log2 + e - 52) := by omega
      rw [hshift, Nat.shiftLeft_eq]
      congr 1
      omega
  obtain ⟨m', e', hm', he', hk, hdecrease⟩ := hscale
  simp only [UnpackedFloat.round, hdecrease]
  have hbits := roundedBits_eq hm' rfl he'
  simp only [← hk, hbits]
  exact roundWithAccuracy_eq hm' rfl he' (hbits ▸ hk ▸ h0)

end CharacterSheet.Binary64
