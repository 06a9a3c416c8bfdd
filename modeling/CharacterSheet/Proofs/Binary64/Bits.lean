import Mathlib
import CharacterSheet.Binary64.Basic

/-!
# The bits of a double

* `toNat_toBits_ofSignBits` — a double that is put together from a sign and bits has these bits;
* `isFinite_ofSignBits_iff` — it is finite just below the bits of infinity;
* `magnitudeOfBits_strictMono` — the magnitudes are in the order of the bits;
* `ofRatio_magnitudeOfBits` — a magnitude is rounded to itself.
-/

namespace CharacterSheet.Binary64

open Float.Model Float.Model.UnpackedFloat

theorem leadingOne_eq : leadingOne = 2 ^ 52 := rfl

theorem signBit_eq : signBit = 2 ^ 63 := rfl

theorem infinityBits_eq : infinityBits = 2047 * 2 ^ 52 := rfl

theorem exists_unity_eq : ∃ u, u = 1074 ∧ unity = 2 ^ u := by
  obtain ⟨u, hu⟩ : ∃ u, u = 1074 := ⟨_, rfl⟩
  refine ⟨u, hu, ?_⟩
  rw [unity, ← hu]
  rfl

/-- The word of a sign and the bits below it. -/
def signedWord (negative : Bool) (bits : Nat) : Nat := (if negative then signBit else 0) + bits

variable {negative : Bool} {b : Nat}

theorem signedWord_lt (hb : b ≤ infinityBits) : signedWord negative b < 2 ^ 64 := by
  rw [infinityBits_eq] at hb
  cases negative <;> simp only [signedWord, signBit_eq] <;> norm_num <;> omega

theorem toNat_unpackExponent (w : BitVec 64) :
    (@unpackExponent Format.binary64 w).toNat = w.toNat / 2 ^ 52 % 2 ^ 11 := by
  rw [unpackExponent_def, BitVec.extractLsb'_toNat, Nat.shiftRight_eq_div_pow]

theorem toNat_unpackMantissa (w : BitVec 64) :
    (@unpackMantissa Format.binary64 w).toNat = w.toNat % 2 ^ 52 := by
  rw [unpackMantissa_def, BitVec.extractLsb'_toNat, Nat.shiftRight_zero]

theorem unpackExponent_eq_neg_one {w : BitVec 64} :
    @unpackExponent Format.binary64 w = -1#11 ↔ w.toNat / 2 ^ 52 % 2 ^ 11 = 2047 := by
  rw [← BitVec.toNat_inj, toNat_unpackExponent]
  rfl

theorem unpackMantissa_eq_zero {w : BitVec 64} :
    @unpackMantissa Format.binary64 w = 0#52 ↔ w.toNat % 2 ^ 52 = 0 := by
  rw [← BitVec.toNat_inj, toNat_unpackMantissa]
  rfl

/-- The bits below the sign, in a word. -/
theorem signedWord_div_mod (hb : b ≤ infinityBits) :
    signedWord negative b / 2 ^ 52 % 2 ^ 11 = b / 2 ^ 52 := by
  rw [infinityBits_eq] at hb
  cases negative <;> simp only [signedWord, signBit_eq] <;> norm_num <;> omega

theorem signedWord_mod : signedWord negative b % 2 ^ 52 = b % 2 ^ 52 := by
  cases negative <;> simp only [signedWord, signBit_eq]
  · simp
  · norm_num
    omega

theorem toNat_ofNat_signedWord (hb : b ≤ infinityBits) :
    (UInt64.ofNat (signedWord negative b)).toBitVec.toNat = signedWord negative b :=
  Nat.mod_eq_of_lt (signedWord_lt hb)

theorem not_isNaNBits_signedWord (hb : b ≤ infinityBits) :
    ¬@isNaNBits Format.binary64 (UInt64.ofNat (signedWord negative b)).toBitVec := by
  intro h
  obtain ⟨he, hm⟩ := of_decide_eq_true h
  have he := unpackExponent_eq_neg_one.1 he
  have hm := mt unpackMantissa_eq_zero.2 hm
  rw [toNat_ofNat_signedWord hb, signedWord_div_mod hb] at he
  rw [toNat_ofNat_signedWord hb, signedWord_mod] at hm
  rw [infinityBits_eq] at hb
  omega

theorem toBits_ofSignBits (hb : b ≤ infinityBits) :
    (ofSignBits negative b).toBits = UInt64.ofNat (signedWord negative b) := by
  show UInt64.ofBitVec (pack Format.binary64 (unpack Format.binary64 _)) = _
  rw [pack_unpack, if_neg]
  · rfl
  · exact not_isNaNBits_signedWord hb

theorem toNat_toBits_ofSignBits (hb : b ≤ infinityBits) :
    (ofSignBits negative b).toBits.toNat = signedWord negative b := by
  rw [toBits_ofSignBits hb]
  exact toNat_ofNat_signedWord hb

/-! ### The parts of a double -/

theorem exponentField_ofSignBits (hb : b ≤ infinityBits) :
    exponentField (ofSignBits negative b) = b / 2 ^ 52 := by
  rw [exponentField, toNat_toBits_ofSignBits hb]
  exact signedWord_div_mod hb

theorem fractionField_ofSignBits (hb : b ≤ infinityBits) :
    fractionField (ofSignBits negative b) = b % 2 ^ 52 := by
  rw [fractionField, toNat_toBits_ofSignBits hb]
  exact signedWord_mod

theorem isNegative_ofSignBits (hb : b ≤ infinityBits) :
    isNegative (ofSignBits negative b) = negative := by
  rw [isNegative, toNat_toBits_ofSignBits hb]
  rw [infinityBits_eq] at hb
  cases negative <;> simp only [signedWord, signBit_eq] <;> norm_num
  omega

theorem isFinite_iff {x : Float} : x.isFinite ↔ exponentField x ≠ 2047 := by
  have hfield : exponentField x = 2047 ↔
      @unpackExponent Format.binary64 x.toBits.toBitVec = -1#11 :=
    unpackExponent_eq_neg_one.symm
  have hne : (0#11 : BitVec 11) ≠ -1#11 := by decide
  rw [ne_eq, hfield]
  show (unpack Format.binary64 x.toBits.toBitVec).isFinite ↔ _
  fun_cases unpack Format.binary64 x.toBits.toBitVec with
  | case1 _ _ _ _ h => exact iff_of_false nofun (not_not_intro h)
  | case2 _ _ h => exact iff_of_false nofun (not_not_intro h)
  | case3 _ _ _ _ _ h => exact iff_of_true rfl fun h' => hne (h.symm.trans h')
  | case4 _ _ _ _ _ _ h => exact iff_of_true rfl fun h' => hne (h.symm.trans h')
  | case5 _ _ _ _ _ h => exact iff_of_true rfl h

theorem isNaN_of_isFinite {x : Float} (h : x.isFinite) : x.isNaN = false := by
  show x.toModel.unpack.isNaN = false
  replace h : x.toModel.unpack.isFinite := h
  cases hx : x.toModel.unpack <;> simp_all [Float.Model.UnpackedFloat.isFinite,
    Float.Model.UnpackedFloat.isNaN]

theorem isInf_of_isFinite {x : Float} (h : x.isFinite) : x.isInf = false := by
  show x.toModel.unpack.isInf = false
  replace h : x.toModel.unpack.isFinite := h
  cases hx : x.toModel.unpack <;> simp_all [Float.Model.UnpackedFloat.isFinite,
    Float.Model.UnpackedFloat.isInf]

/-- Bits below those of infinity are the bits of a finite double. -/
theorem isFinite_ofSignBits_iff (hb : b ≤ infinityBits) :
    (ofSignBits negative b).isFinite ↔ b < infinityBits := by
  rw [isFinite_iff, exponentField_ofSignBits hb]
  rw [infinityBits_eq] at hb ⊢
  omega

/-! ### Magnitudes -/

/-- The magnitude of a double with the given bits below the sign. -/
def magnitudeOfBits (b : Nat) : Nat :=
  (if b / 2 ^ 52 = 0 then b % 2 ^ 52 else 2 ^ 52 + b % 2 ^ 52) * 2 ^ (b / 2 ^ 52 - 1)

theorem magnitude_ofSignBits (hb : b ≤ infinityBits) :
    magnitude (ofSignBits negative b) = magnitudeOfBits b := by
  rw [magnitude, significand, unitExponent, exponentField_ofSignBits hb,
    fractionField_ofSignBits hb]
  rfl

theorem magnitudeOfBits_lt_succ (b : Nat) : magnitudeOfBits b < magnitudeOfBits (b + 1) := by
  unfold magnitudeOfBits
  by_cases hstep : (b + 1) % 2 ^ 52 = 0
  · -- the fraction overflows into the exponent
    have hdiv : (b + 1) / 2 ^ 52 = b / 2 ^ 52 + 1 := by omega
    have hmod : b % 2 ^ 52 = 2 ^ 52 - 1 := by omega
    rw [hstep, hdiv, hmod, if_neg (Nat.succ_ne_zero _), Nat.add_sub_cancel]
    by_cases h0 : b / 2 ^ 52 = 0
    · rw [h0, if_pos rfl]
      norm_num
    · obtain ⟨e, he⟩ := Nat.exists_eq_succ_of_ne_zero h0
      have hpow : 2 ^ (e + 1) = 2 * 2 ^ e := Nat.pow_succ'
      rw [he, if_neg (Nat.succ_ne_zero e), Nat.succ_sub_one, Nat.succ_eq_add_one, hpow,
        ← Nat.mul_assoc]
      exact Nat.mul_lt_mul_of_pos_right (by norm_num) (Nat.two_pow_pos e)
  · have hdiv : (b + 1) / 2 ^ 52 = b / 2 ^ 52 := by omega
    have hmod : (b + 1) % 2 ^ 52 = b % 2 ^ 52 + 1 := by omega
    rw [hdiv, hmod]
    refine Nat.mul_lt_mul_of_pos_right ?_ (Nat.two_pow_pos _)
    split <;> omega

theorem magnitudeOfBits_strictMono : StrictMono magnitudeOfBits :=
  strictMono_nat_of_lt_succ magnitudeOfBits_lt_succ

theorem magnitudeOfBits_lt_two_pow {e : Nat} (he : b / 2 ^ 52 - 1 ≤ e) :
    magnitudeOfBits b < 2 ^ (53 + e) := by
  have hsignificand : (if b / 2 ^ 52 = 0 then b % 2 ^ 52 else 2 ^ 52 + b % 2 ^ 52) < 2 ^ 53 := by
    split <;> omega
  have hexponent : 2 ^ (b / 2 ^ 52 - 1) ≤ 2 ^ e := Nat.pow_le_pow_right (by norm_num) he
  rw [Nat.pow_add]
  exact Nat.mul_lt_mul_of_lt_of_le hsignificand hexponent (Nat.two_pow_pos e)

theorem magnitudeOfBits_lt (hb : b < infinityBits) : magnitudeOfBits b < 2 ^ (53 + 2045) := by
  rw [infinityBits_eq] at hb
  exact magnitudeOfBits_lt_two_pow (by omega)

/-! ### Rounding a quotient -/

theorem ofRatio_mul_right (num den : Nat) {c : Nat} (hc : 0 < c) :
    ofRatio negative (num * c) (den * c) = ofRatio negative num den := by
  have hbinade : binade (num * c) (den * c) = binade num den := by
    rw [binade, binade, Nat.mul_div_mul_right _ _ hc]
  simp only [ofRatio, hbinade, Nat.mul_right_comm den c, divHalfEven_mul_right _ _ hc]

theorem binade_mul_two_pow {m e : Nat} (hm : m < 2 ^ 53) (he : e = 0 ∨ 2 ^ 52 ≤ m) :
    binade (m * 2 ^ e) 1 = e := by
  rw [binade, Nat.div_one]
  rcases he with rfl | hlow
  · rw [Nat.pow_zero, Nat.mul_one]
    have hlog : m.log2 < 53 := by
      by_cases h0 : m = 0
      · rw [h0, Nat.log2_zero]
        norm_num
      · exact (Nat.log2_lt h0).2 hm
    omega
  · have hlog : (m * 2 ^ e).log2 = 52 + e := by
      rw [Nat.log2_eq_iff (by positivity), Nat.pow_add, Nat.add_right_comm, Nat.pow_add]
      exact ⟨Nat.mul_le_mul_right _ hlow, Nat.mul_lt_mul_of_pos_right hm (Nat.two_pow_pos e)⟩
    omega

/-- A magnitude is rounded to itself. -/
theorem ofRatio_magnitudeOfBits (hb : b < infinityBits) :
    ofRatio negative (magnitudeOfBits b) 1 = ofSignBits negative b := by
  -- subnormal and normal bits alike are `m` units of `2 ^ e`, with `e = 0` or `m` of full width
  obtain ⟨m, e, hk, hm, he, hbits⟩ : ∃ m e, magnitudeOfBits b = m * 2 ^ e ∧ m < 2 ^ 53 ∧
      (e = 0 ∨ 2 ^ 52 ≤ m) ∧ e * 2 ^ 52 + m = b := by
    refine ⟨_, _, rfl, ?_⟩
    split <;> omega
  have hround : divHalfEven (m * 2 ^ e) (1 * 2 ^ e) = m := by
    rw [divHalfEven_mul_right _ _ (Nat.two_pow_pos e), divHalfEven_one]
  rw [hk, ofRatio, binade_mul_two_pow hm he]
  simp only [Nat.pow_eq, leadingOne_eq, hround, hbits]
  rw [Nat.min_eq_left hb.le]

/-- A rounded quotient is a double with bits up to those of infinity. -/
theorem exists_ofRatio_eq (negative : Bool) (num den : Nat) :
    ∃ b ≤ infinityBits, ofRatio negative num den = ofSignBits negative b :=
  ⟨_, Nat.min_le_right _ _, rfl⟩

end CharacterSheet.Binary64
