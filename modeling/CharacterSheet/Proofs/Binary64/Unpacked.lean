import CharacterSheet.Proofs.Binary64.Bits

/-!
# Doubles in their parts

Addition and comparison of doubles are defined on doubles that are taken apart into a sign, a
significand and an exponent. Here the parts are tied to the bits below the sign: a double that is no
NaN is its sign and these bits, and the bits in turn are a significand above its exponent.

* `lowBits`, `ofSignBits_isNegative_lowBits` — a double that is no NaN is its sign and these bits;
* `finiteOfBits`, `unpack_signedWord` — the parts of a finite double;
* `ofParts`, `ofParts_finiteOfBits` — the double with given parts.
-/

namespace CharacterSheet.Binary64

open Float.Model Float.Model.UnpackedFloat

variable {negative : Bool} {b : Nat} {x : Float}

/-- The bits of a double below its sign. -/
def lowBits (x : Float) : Nat := x.toBits.toNat % 2 ^ 63

theorem signedWord_isNegative_lowBits (x : Float) :
    signedWord (isNegative x) (lowBits x) = x.toBits.toNat := by
  have hlt : x.toBits.toNat < 2 ^ 64 := x.toBits.toNat_lt
  unfold signedWord isNegative lowBits
  rw [signBit_eq]
  split
  · simp_all
    omega
  · simp_all

theorem lowBits_le_of_isNaN (hx : x.isNaN = false) : lowBits x ≤ infinityBits := by
  by_contra h
  have hbits := signedWord_isNegative_lowBits x
  have hlt : x.toBits.toNat < 2 ^ 64 := x.toBits.toNat_lt
  rw [lowBits, infinityBits_eq] at h
  have hexponent : @unpackExponent Format.binary64 x.toBits.toBitVec = -1#11 := by
    rw [unpackExponent_eq_neg_one]
    show x.toBits.toNat / 2 ^ 52 % 2 ^ 11 = 2047
    omega
  have hmantissa : @unpackMantissa Format.binary64 x.toBits.toBitVec ≠ 0#52 := by
    rw [ne_eq, unpackMantissa_eq_zero]
    show x.toBits.toNat % 2 ^ 52 ≠ 0
    omega
  have hunpack : UnpackedFloat.unpack Format.binary64 x.toBits.toBitVec = .notANumber := by
    simp [UnpackedFloat.unpack, hexponent, hmantissa]
  have hnan : x.isNaN = true := by
    show (UnpackedFloat.unpack Format.binary64 x.toBits.toBitVec).isNaN = true
    rw [hunpack]
    rfl
  rw [hx] at hnan
  cases hnan

/-- A double that is no NaN is its sign and the bits below. -/
theorem ofSignBits_isNegative_lowBits (hx : x.isNaN = false) :
    ofSignBits (isNegative x) (lowBits x) = x := by
  rw [← Float.toBits_inj, ← UInt64.toNat_inj, toNat_toBits_ofSignBits (lowBits_le_of_isNaN hx),
    signedWord_isNegative_lowBits]

/-- The sign as the core library has it. -/
def signOf (negative : Bool) : UnpackedFloat.Sign := if negative then .negative else .positive

/-- The significand that is stored in the bits below the sign. -/
def significandOfBits (b : Nat) : Nat := if b / 2 ^ 52 = 0 then b % 2 ^ 52 else 2 ^ 52 + b % 2 ^ 52

/-- The exponent that is stored there, counted from that of the smallest unit. -/
def exponentOfBits (b : Nat) : Nat := b / 2 ^ 52 - 1

theorem significandOfBits_pos (hb : 0 < b) : 0 < significandOfBits b := by
  unfold significandOfBits
  split <;> omega

/-- A finite double other than zero, in its parts. -/
def finiteOfBits (negative : Bool) (b : Nat) (hb : 0 < b) : UnpackedFloat :=
  .finite (signOf negative) (significandOfBits b) (exponentOfBits b - 1074)
    (significandOfBits_pos hb)

theorem unpackSign_eq {w : BitVec 64} (hw : w.toNat = signedWord negative b)
    (hb : b ≤ infinityBits) :
    UnpackedFloat.Sign.ofBitVec (@unpackSign Format.binary64 w) = signOf negative := by
  have hnat : (@unpackSign Format.binary64 w).toNat = if negative then 1 else 0 := by
    rw [unpackSign_def, BitVec.extractLsb'_toNat, hw, Nat.shiftRight_eq_div_pow]
    rw [infinityBits_eq] at hb
    cases negative <;> simp only [signedWord, signBit_eq] <;> norm_num <;> omega
  cases negative with
  | false =>
    have : @unpackSign Format.binary64 w = 0#1 := BitVec.eq_of_toNat_eq hnat
    rw [this]
    rfl
  | true =>
    have : @unpackSign Format.binary64 w = 1#1 := BitVec.eq_of_toNat_eq hnat
    rw [this]
    rfl

theorem finite_congr {s : UnpackedFloat.Sign} {m m' : Nat} {e e' : Int} {h : 0 < m} {h' : 0 < m'}
    (hm : m = m') (he : e = e') : UnpackedFloat.finite s m e h = .finite s m' e' h' := by
  subst hm he
  rfl

theorem toNat_one_append (v : BitVec 52) : (1#1 ++ v).toNat = 2 ^ 52 + v.toNat := by
  rw [BitVec.toNat_append, ← Nat.shiftLeft_add_eq_or_of_lt v.isLt]
  rfl

theorem unpack_signedWord {w : BitVec 64} (hw : w.toNat = signedWord negative b) (h0 : 0 < b)
    (hb : b < infinityBits) :
    UnpackedFloat.unpack Format.binary64 w = finiteOfBits negative b h0 := by
  have hE : (@unpackExponent Format.binary64 w).toNat = b / 2 ^ 52 := by
    rw [toNat_unpackExponent, hw, signedWord_div_mod hb.le]
  have hM : (@unpackMantissa Format.binary64 w).toNat = b % 2 ^ 52 := by
    rw [toNat_unpackMantissa, hw, signedWord_mod]
  have hinf : @unpackExponent Format.binary64 w ≠ -1#11 := by
    rw [ne_eq, ← BitVec.toNat_inj, hE]
    rw [infinityBits_eq] at hb
    show b / 2 ^ 52 ≠ 2047
    omega
  unfold UnpackedFloat.unpack finiteOfBits
  simp only [hinf, if_false, unpackSign_eq hw hb.le]
  by_cases hsub : b / 2 ^ 52 = 0
  · have hE0 : @unpackExponent Format.binary64 w = 0#11 := by
      rw [← BitVec.toNat_inj, hE, hsub]
      rfl
    have hM0 : @unpackMantissa Format.binary64 w ≠ 0#52 := by
      rw [ne_eq, ← BitVec.toNat_inj, hM]
      show b % 2 ^ 52 ≠ 0
      omega
    rw [if_pos hE0, dif_neg hM0]
    refine finite_congr ?_ ?_
    · rw [hM, significandOfBits, if_pos hsub]
    · rw [hE0, exponentOfBits, hsub]
      rfl
  · have hE0 : @unpackExponent Format.binary64 w ≠ 0#11 := by
      rw [ne_eq, ← BitVec.toNat_inj, hE]
      exact hsub
    rw [if_neg hE0]
    refine finite_congr ?_ ?_
    · rw [toNat_one_append, hM, significandOfBits, if_neg hsub]
    · rw [hE, exponentOfBits]
      show ((b / 2 ^ 52 : Nat) : Int) - 1075 = _
      omega

theorem unpack_zero {w : BitVec 64} (hw : w.toNat = signedWord negative 0) :
    UnpackedFloat.unpack Format.binary64 w = .zero (signOf negative) := by
  have hE : @unpackExponent Format.binary64 w = 0#11 := by
    rw [← BitVec.toNat_inj, toNat_unpackExponent, hw, signedWord_div_mod (Nat.zero_le _)]
    rfl
  have hM : @unpackMantissa Format.binary64 w = 0#52 := by
    rw [unpackMantissa_eq_zero, hw, signedWord_mod, Nat.zero_mod]
  simp [UnpackedFloat.unpack, hE, hM, unpackSign_eq hw (Nat.zero_le _)]

theorem unpack_infinity {w : BitVec 64} (hw : w.toNat = signedWord negative infinityBits) :
    UnpackedFloat.unpack Format.binary64 w = .infinity (signOf negative) := by
  have hE : @unpackExponent Format.binary64 w = -1#11 := by
    rw [unpackExponent_eq_neg_one, hw, signedWord_div_mod le_rfl]
    rfl
  have hM : @unpackMantissa Format.binary64 w = 0#52 := by
    rw [unpackMantissa_eq_zero, hw, signedWord_mod]
    rfl
  simp [UnpackedFloat.unpack, hE, hM, unpackSign_eq hw le_rfl]

/-! ### The parts of a double -/

/-- The double that has the given parts. -/
def ofParts (u : UnpackedFloat) : Float := .ofModel (Float.Model.pack u)

theorem parts_ofSignBits_toNat (hb : b ≤ infinityBits) :
    (ofSignBits negative b).toBits.toBitVec.toNat = signedWord negative b :=
  toNat_toBits_ofSignBits hb

theorem parts_ofSignBits (h0 : 0 < b) (hb : b < infinityBits) :
    (ofSignBits negative b).toModel.unpack = finiteOfBits negative b h0 :=
  unpack_signedWord (parts_ofSignBits_toNat hb.le) h0 hb

theorem parts_ofSignBits_zero :
    (ofSignBits negative 0).toModel.unpack = .zero (signOf negative) :=
  unpack_zero (parts_ofSignBits_toNat (Nat.zero_le _))

theorem parts_ofSignBits_infinityBits :
    (ofSignBits negative infinityBits).toModel.unpack = .infinity (signOf negative) :=
  unpack_infinity (parts_ofSignBits_toNat le_rfl)

theorem ofParts_unpack (x : Float) : ofParts x.toModel.unpack = x := Float.ofBits_toBits x

/-- Bits past those of the infinity are cut off. -/
theorem ofParts_finiteOfBits (h0 : 0 < b) :
    ofParts (finiteOfBits negative b h0) = ofSignBits negative (min b infinityBits) := by
  rcases Nat.lt_or_ge b infinityBits with hb | hb
  · rw [Nat.min_eq_left hb.le, ← parts_ofSignBits h0 hb, ofParts_unpack]
  · rw [Nat.min_eq_right hb, ← ofParts_unpack (ofSignBits negative infinityBits),
      parts_ofSignBits_infinityBits]
    have hpack : UnpackedFloat.pack Format.binary64 (finiteOfBits negative b h0) =
        packedInfinity Format.binary64 (signOf negative) := by
      rw [infinityBits_eq] at hb
      unfold UnpackedFloat.pack finiteOfBits exponentOfBits
      refine if_pos ?_
      show 2 ^ 11 ≤ (((b / 2 ^ 52 - 1 : Nat) : Int) - 1074 + 1023 + 52).toNat + 1
      omega
    unfold ofParts Float.Model.pack
    congr 3

theorem ofParts_zero : ofParts (.zero (signOf negative)) = ofSignBits negative 0 := by
  rw [← parts_ofSignBits_zero, ofParts_unpack]

end CharacterSheet.Binary64
