import CharacterSheet.Proofs.Binary64.Rounding

/-!
# The sum of two doubles

Two doubles are added by bringing both significands to the smaller of the two units. No digit is
lost in this, so that only the exact sum is rounded.

* `scaled_eq_mul_two_pow` — a double counted in a smaller unit;
* `add_eq_ofRatio` — the sum of two finite doubles is their exact sum in smallest units, rounded;
* `infinity_add` — an infinity stays what it is.
-/

namespace CharacterSheet.Binary64

open Float.Model Float.Model.UnpackedFloat

variable {negative : Bool} {b : Nat} {x y : Float}

theorem scaled_ofSignBits (hb : b ≤ infinityBits) : scaled (ofSignBits negative b) =
    if negative then -(magnitudeOfBits b : Int) else magnitudeOfBits b := by
  rw [scaled, isNegative_ofSignBits hb, magnitude_ofSignBits hb]

theorem lowBits_lt_of_isFinite (hx : x.isFinite) : lowBits x < infinityBits := by
  have hnan := isNaN_of_isFinite hx
  rw [← ofSignBits_isNegative_lowBits hnan] at hx
  exact (isFinite_ofSignBits_iff (lowBits_le_of_isNaN hnan)).1 hx

/-- A finite double is its sign and the bits below. -/
theorem exists_eq_ofSignBits (hx : x.isFinite) :
    ∃ negative, ∃ b < infinityBits, x = ofSignBits negative b :=
  ⟨isNegative x, lowBits x, lowBits_lt_of_isFinite hx,
    (ofSignBits_isNegative_lowBits (isNaN_of_isFinite hx)).symm⟩

theorem roundedBits_zero : roundedBits 0 = 0 := by decide

theorem roundedBits_magnitudeOfBits (hb : b < infinityBits) :
    min (roundedBits (magnitudeOfBits b)) infinityBits = b := by
  have hround : ofRatio false (magnitudeOfBits b) 1 = ofSignBits false b :=
    ofRatio_magnitudeOfBits hb
  rw [ofRatio_eq_ofSignBits] at hround
  have hmagnitude := congrArg magnitude hround
  rw [magnitude_ofSignBits (Nat.min_le_right _ _), magnitude_ofSignBits hb.le] at hmagnitude
  exact magnitudeOfBits_strictMono.injective hmagnitude

/-- What the core library rounds is the nearest double. -/
theorem ofParts_round (negative : Bool) {m : Nat} (hm : 0 < m) (e : Nat) :
    ofParts (UnpackedFloat.round Format.binary64 (signOf negative) m (e - 1074)) =
      ofRatio negative (m * 2 ^ e) 1 := by
  have hbits : 0 < roundedBits (m * 2 ^ e) := roundedBits_pos (by positivity)
  rw [round_eq hm hbits, ofParts_finiteOfBits, ofRatio_eq_ofSignBits]

theorem ofParts_normalize (n : Int) (e : Nat) :
    ofParts (UnpackedFloat.normalize Format.binary64 n (e - 1074) .positive) =
      ofRatio (decide (n < 0)) (n.natAbs * 2 ^ e) 1 := by
  unfold UnpackedFloat.normalize
  rcases lt_trichotomy n 0 with hn | rfl | hn
  · have hnat : (-n).toNat = n.natAbs := by omega
    rw [Int.compare_eq_lt.2 hn, decide_eq_true hn, hnat]
    exact ofParts_round true (by omega) e
  · have hzero : ofParts (.zero (signOf false)) = ofSignBits false 0 := ofParts_zero
    rw [ofRatio_eq_ofSignBits, Int.natAbs_zero, Nat.zero_mul, roundedBits_zero]
    exact hzero
  · have hnat : n.toNat = n.natAbs := by omega
    rw [Int.compare_eq_gt.2 hn, decide_eq_false hn.not_gt, hnat]
    exact ofParts_round false (by omega) e

/-- The number of units in a finite double, with what is counted in a smaller unit. -/
theorem scaled_eq_mul_two_pow (hb : b < infinityBits) {e : Nat} (he : e ≤ exponentOfBits b) :
    scaled (ofSignBits negative b) =
      (signOf negative).apply ((significandOfBits b * 2 ^ (exponentOfBits b - e) : Nat) : Int) *
        2 ^ e := by
  have hmagnitude : magnitudeOfBits b =
      significandOfBits b * 2 ^ (exponentOfBits b - e) * 2 ^ e := by
    rw [Nat.mul_assoc, ← Nat.pow_add, Nat.sub_add_cancel he]
    rfl
  rw [scaled_ofSignBits hb.le, hmagnitude]
  cases negative <;> simp [signOf, UnpackedFloat.Sign.apply]

theorem add_eq_ofParts (x y : Float) :
    x + y = ofParts (UnpackedFloat.add Format.binary64 x.toModel.unpack y.toModel.unpack) := rfl

theorem decreaseExponent_eq {m e e' : Nat} (he : e ≤ e') :
    decreaseExponent m (e' - 1074) (e - 1074) = (m * 2 ^ (e' - e), (e : Int) - 1074) := by
  have hshift : ((e' : Int) - 1074 - ((e : Int) - 1074)).toNat = e' - e := by omega
  rw [decreaseExponent, hshift, Nat.shiftLeft_eq]
  congr 1
  omega

theorem add_of_pos {n₁ n₂ : Bool} {b₁ b₂ : Nat} (h₁ : 0 < b₁) (h₂ : 0 < b₂)
    (hb₁ : b₁ < infinityBits) (hb₂ : b₂ < infinityBits) :
    ofSignBits n₁ b₁ + ofSignBits n₂ b₂ =
      ofRatio (decide (scaled (ofSignBits n₁ b₁) + scaled (ofSignBits n₂ b₂) < 0))
        (scaled (ofSignBits n₁ b₁) + scaled (ofSignBits n₂ b₂)).natAbs 1 := by
  -- both significands are counted in the smaller unit of the two
  obtain ⟨e, he⟩ : ∃ e, e = min (exponentOfBits b₁) (exponentOfBits b₂) := ⟨_, rfl⟩
  have he₁ : e ≤ exponentOfBits b₁ := he ▸ Nat.min_le_left _ _
  have he₂ : e ≤ exponentOfBits b₂ := he ▸ Nat.min_le_right _ _
  have hmin : min ((exponentOfBits b₁ : Int) - 1074) (exponentOfBits b₂ - 1074) = e - 1074 := by
    omega
  obtain ⟨n, hn⟩ : ∃ n : Int, n =
      (signOf n₁).apply ((significandOfBits b₁ * 2 ^ (exponentOfBits b₁ - e) : Nat) : Int) +
      (signOf n₂).apply ((significandOfBits b₂ * 2 ^ (exponentOfBits b₂ - e) : Nat) : Int) :=
    ⟨_, rfl⟩
  have hsum : scaled (ofSignBits n₁ b₁) + scaled (ofSignBits n₂ b₂) = n * 2 ^ e := by
    rw [scaled_eq_mul_two_pow hb₁ he₁, scaled_eq_mul_two_pow hb₂ he₂, ← add_mul, ← hn]
  have hparts : UnpackedFloat.add Format.binary64 (finiteOfBits n₁ b₁ h₁) (finiteOfBits n₂ b₂ h₂) =
      UnpackedFloat.normalize Format.binary64 n (e - 1074) .positive := by
    simp only [finiteOfBits, UnpackedFloat.add, hmin, decreaseExponent_eq he₁,
      decreaseExponent_eq he₂, ← hn]
  have hneg : n * 2 ^ e < 0 ↔ n < 0 :=
    ⟨fun h => neg_of_mul_neg_left h (by positivity),
      fun h => mul_neg_of_neg_of_pos h (by positivity)⟩
  have habs : (n * 2 ^ e).natAbs = n.natAbs * 2 ^ e := by
    rw [Int.natAbs_mul, Int.natAbs_pow]
    rfl
  rw [add_eq_ofParts, parts_ofSignBits h₁ hb₁, parts_ofSignBits h₂ hb₂, hparts, ofParts_normalize,
    hsum, habs, decide_eq_decide.2 hneg]

theorem ofSignBits_zero_add {n₁ n₂ : Bool} (hb : 0 < b) (hlt : b < infinityBits) :
    ofSignBits n₁ 0 + ofSignBits n₂ b = ofSignBits n₂ b := by
  rw [add_eq_ofParts, parts_ofSignBits_zero, parts_ofSignBits hb hlt]
  exact (ofParts_finiteOfBits hb).trans (by rw [Nat.min_eq_left hlt.le])

theorem ofSignBits_add_zero {n₁ n₂ : Bool} (hb : 0 < b) (hlt : b < infinityBits) :
    ofSignBits n₁ b + ofSignBits n₂ 0 = ofSignBits n₁ b := by
  rw [add_eq_ofParts, parts_ofSignBits_zero, parts_ofSignBits hb hlt]
  exact (ofParts_finiteOfBits hb).trans (by rw [Nat.min_eq_left hlt.le])

theorem ofSignBits_zero_add_zero (n₁ n₂ : Bool) :
    ofSignBits n₁ 0 + ofSignBits n₂ 0 = ofSignBits (n₁ && n₂) 0 := by
  rw [add_eq_ofParts, parts_ofSignBits_zero, parts_ofSignBits_zero, ← ofParts_zero]
  cases n₁ <;> cases n₂ <;> rfl

theorem scaled_ofSignBits_zero : scaled (ofSignBits negative 0) = 0 := by
  rw [scaled_ofSignBits (Nat.zero_le _)]
  cases negative <;> rfl

theorem magnitudeOfBits_pos (hb : 0 < b) : 0 < magnitudeOfBits b :=
  (magnitudeOfBits_strictMono hb).trans_le' (Nat.zero_le _)

theorem natAbs_scaled_ofSignBits (hb : b ≤ infinityBits) :
    (scaled (ofSignBits negative b)).natAbs = magnitudeOfBits b := by
  rw [scaled_ofSignBits hb]
  cases negative <;> simp

theorem decide_scaled_ofSignBits_neg (h0 : 0 < b) (hb : b ≤ infinityBits) :
    decide (scaled (ofSignBits negative b) < 0) = negative := by
  have := magnitudeOfBits_pos h0
  rw [scaled_ofSignBits hb]
  cases negative
  · exact decide_eq_false (not_lt_of_ge (Int.natCast_nonneg _))
  · exact decide_eq_true (by simpa using this)

/-- A finite double is its number of units, under its sign. -/
theorem ofRatio_scaled_ofSignBits (h0 : 0 < b) (hb : b < infinityBits) :
    ofSignBits negative b =
      ofRatio (decide (scaled (ofSignBits negative b) < 0)) (scaled (ofSignBits negative b)).natAbs
        1 := by
  rw [natAbs_scaled_ofSignBits hb.le, decide_scaled_ofSignBits_neg h0 hb.le,
    ofRatio_magnitudeOfBits hb]

/-- The sum of two finite doubles is their exact sum, rounded. Only a zero may have either sign. -/
theorem add_eq_ofRatio (hx : x.isFinite) (hy : y.isFinite) :
    ∃ negative, (scaled x + scaled y ≠ 0 → negative = decide (scaled x + scaled y < 0)) ∧
      x + y = ofRatio negative (scaled x + scaled y).natAbs 1 := by
  obtain ⟨n₁, b₁, hb₁, rfl⟩ := exists_eq_ofSignBits hx
  obtain ⟨n₂, b₂, hb₂, rfl⟩ := exists_eq_ofSignBits hy
  rcases b₁.eq_zero_or_pos with rfl | h₁ <;> rcases b₂.eq_zero_or_pos with rfl | h₂
  · refine ⟨n₁ && n₂, fun h => absurd ?_ h, ?_⟩
    · rw [scaled_ofSignBits_zero, scaled_ofSignBits_zero, add_zero]
    · rw [ofSignBits_zero_add_zero, scaled_ofSignBits_zero, scaled_ofSignBits_zero]
      exact (ofRatio_magnitudeOfBits hb₁).symm
  · refine ⟨_, fun _ => rfl, ?_⟩
    rw [ofSignBits_zero_add h₂ hb₂, scaled_ofSignBits_zero, zero_add]
    exact ofRatio_scaled_ofSignBits h₂ hb₂
  · refine ⟨_, fun _ => rfl, ?_⟩
    rw [ofSignBits_add_zero h₁ hb₁, scaled_ofSignBits_zero, add_zero]
    exact ofRatio_scaled_ofSignBits h₁ hb₁
  · exact ⟨_, fun _ => rfl, add_of_pos h₁ h₂ hb₁ hb₂⟩

theorem infinity_add (hy : y.isFinite) (n : Bool) : infinity n + y = infinity n := by
  have hparts : UnpackedFloat.add Format.binary64 (.infinity (signOf n)) y.toModel.unpack =
      .infinity (signOf n) := by
    replace hy : y.toModel.unpack.isFinite := hy
    cases h : y.toModel.unpack with
    | zero => rfl
    | finite => rfl
    | infinity => simp [h, UnpackedFloat.isFinite] at hy
    | notANumber => simp [h, UnpackedFloat.isFinite] at hy
  rw [infinity, add_eq_ofParts, parts_ofSignBits_infinityBits, hparts,
    ← parts_ofSignBits_infinityBits, ofParts_unpack]

end CharacterSheet.Binary64
