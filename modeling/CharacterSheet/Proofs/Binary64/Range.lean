import CharacterSheet.Proofs.Binary64.Division
import CharacterSheet.Proofs.Binary64.Whole

/-!
# The range of doubles

A number is rounded to a finite double if it is below the middle between the largest double and
`2 ^ 1024`, which would be the next one. From the middle on it is rounded to an infinity.

* `divHalfEven_le_of_lt` — below the middle of two numbers, the upper one is not reached;
* `overflowBound`, `isFinite_ofRatio_iff` — the middle, and what is rounded to a finite double;
* `isFinite_mul_iff`, `isFinite_div_iff` — the products and quotients that are finite;
* `isFinite_of_mul`, `isFinite_of_div` — an infinite factor or dividend gives nothing finite.
-/

namespace CharacterSheet.Binary64

open Float.Model Float.Model.UnpackedFloat

variable {negative : Bool} {num den n : Nat} {x y : Float}

/-! ### What is rounded to a finite double -/

/-- The middle between the largest double and the next power of two. -/
def overflowBound : Nat := 2 ^ 1024 - 2 ^ 970

/-- The middle in units. -/
theorem overflowBound_mul_unity :
    overflowBound * unity = (2 * (2 ^ 53 - 1) + 1) * 2 ^ 2044 := by decide +kernel

theorem infinityBits_le_ratioBits (hden : 0 < den) (h : overflowBound * unity * den ≤ num) :
    infinityBits ≤ ratioBits num den := by
  have hmiddle : ratioBits (overflowBound * unity * den) den = infinityBits := by
    have hone : ratioBits (overflowBound * unity) 1 = infinityBits := by decide +kernel
    rw [← hone, ← ratioBits_mul_right _ 1 hden, Nat.one_mul]
  exact hmiddle ▸ ratioBits_mono h den

theorem binade_le (h : num < 2 ^ (53 + n) * den) : binade num den ≤ n := by
  have hquotient : num / den < 2 ^ (53 + n) := Nat.div_lt_of_lt_mul (by rwa [Nat.mul_comm])
  rcases Nat.eq_zero_or_pos (num / den) with h0 | hpos
  · simp [binade, h0]
  · have hlog := (Nat.log2_lt hpos.ne').2 hquotient
    rw [binade]
    omega

/-- Below the middle of two multiples, a number is rounded to the lower one or further down. -/
theorem divHalfEven_le_of_lt {half q : Nat} (h : num < (2 * q + 1) * half) :
    divHalfEven num (2 * half) ≤ q := by
  have hdivision := Nat.div_add_mod' num (2 * half)
  have hquotient : num / (2 * half) < q + 1 := by
    refine Nat.div_lt_of_lt_mul ?_
    calc num < (2 * q + 1) * half := h
      _ ≤ 2 * (q + 1) * half := Nat.mul_le_mul_right half (by omega)
      _ = 2 * half * (q + 1) := by ring
  rcases divHalfEven_cases num (2 * half) with ⟨hr, -, -⟩ | ⟨hr, hrem, -⟩ <;> rw [hr]
  · omega
  · by_contra hfull
    have hlast : num / (2 * half) = q := by omega
    rw [hlast, Nat.mul_left_comm] at hdivision
    rw [Nat.add_mul, Nat.mul_assoc] at h
    omega

theorem ratioBits_lt_infinityBits (h : num < overflowBound * unity * den) :
    ratioBits num den < infinityBits := by
  have hbinade : binade num den ≤ 2045 := by
    have hpow : overflowBound * unity ≤ 2 ^ (53 + 2045) := by decide +kernel
    exact binade_le (h.trans_le (Nat.mul_le_mul_right den hpow))
  obtain ⟨hhigh, -⟩ := divHalfEven_binade_bounds num den
  rw [ratioBits, infinityBits_eq]
  rcases hbinade.lt_or_eq with hlt | hlast
  · omega
  · -- only in the last binade a significand might be rounded up to a full one
    have hdouble : den * 2 ^ 2045 = 2 * (den * 2 ^ 2044) := by rw [mul_left_comm, ← pow_succ']
    have hrounded : divHalfEven num (2 * (den * 2 ^ 2044)) ≤ 2 ^ 53 - 1 := by
      refine divHalfEven_le_of_lt ?_
      rwa [mul_comm den, ← mul_assoc, ← overflowBound_mul_unity]
    rw [hlast, hdouble]
    omega

theorem isFinite_ofRatio_iff (hden : 0 < den) : (ofRatio negative num den).isFinite ↔
    (num / (den * unity) : ℚ) < overflowBound := by
  have hbits : ratioBits num den < infinityBits ↔ num < overflowBound * unity * den :=
    ⟨fun h => not_le.1 fun hle => h.not_ge (infinityBits_le_ratioBits hden hle),
      ratioBits_lt_infinityBits⟩
  have hscale : (0 : ℚ) < den * unity := mul_pos (Nat.cast_pos.2 hden) unity_pos_rat
  have hcast : (num : ℚ) < overflowBound * (den * unity) ↔ num < overflowBound * unity * den := by
    rw [mul_comm (den : ℚ), ← mul_assoc, ← Nat.cast_mul, ← Nat.cast_mul, Nat.cast_lt]
  rw [ofRatio_eq_ofSignBits_ratioBits, isFinite_ofSignBits_iff (min_le_right _ _), div_lt_iff₀ hscale,
    hcast, ← hbits, min_lt_iff, or_iff_left (lt_irrefl _)]

theorem abs_toRat_lt (hx : x.isFinite) : |toRat x| < overflowBound := by
  have hself : ofRatio (isNegative x) (magnitude x) 1 = x := by
    obtain ⟨n, b, hb, rfl⟩ := exists_eq_ofSignBits hx
    rw [isNegative_ofSignBits hb.le, magnitude_ofSignBits hb.le, ofRatio_magnitudeOfBits hb]
  have hbound := (isFinite_ofRatio_iff Nat.one_pos).1 (hself.symm ▸ hx)
  rwa [Nat.cast_one, one_mul, ← abs_toRat] at hbound

/-! ### Products and quotients -/

/-- A product is finite as long as the exact product is below the middle. -/
theorem isFinite_mul_iff (hx : x.isFinite) (hy : y.isFinite) :
    (x * y).isFinite ↔ |toRat x * toRat y| < overflowBound := by
  rw [mul_eq_ofRatio hx hy, isFinite_ofRatio_iff unity_pos, abs_mul, abs_toRat, abs_toRat,
    div_mul_div_comm, Nat.cast_mul]

/-- A quotient is finite as long as the exact quotient is below the middle. -/
theorem isFinite_div_iff (hx : x.isFinite) (hy : y.isFinite) (h0 : toRat y ≠ 0) :
    (x / y).isFinite ↔ |toRat x / toRat y| < overflowBound := by
  have hbits : 0 < lowBits y := Nat.pos_of_ne_zero (mt (lowBits_eq_zero_iff hy).1 h0)
  have hmagnitude : 0 < magnitude y := by
    rw [magnitude_eq hy]
    exact magnitudeOfBits_pos hbits
  rw [div_eq_ofRatio hx hy hbits, isFinite_ofRatio_iff hmagnitude, abs_div, abs_toRat, abs_toRat,
    Nat.cast_mul, mul_div_mul_right _ _ unity_pos_rat.ne', div_div_div_cancel_right₀ unity_pos_rat.ne']

/-- Divided by one or more, a number stays in the range. -/
theorem isFinite_div_of_one_le (hx : x.isFinite) (hy : y.isFinite) (h1 : 1 ≤ toRat y) :
    (x / y).isFinite := by
  have hpos : 0 < toRat y := zero_lt_one.trans_le h1
  rw [isFinite_div_iff hx hy hpos.ne', abs_div, abs_of_pos hpos]
  exact (div_le_self (abs_nonneg _) h1).trans_lt (abs_toRat_lt hx)

theorem isFinite_ofParts_infinity (s : UnpackedFloat.Sign) :
    (ofParts (.infinity s)).isFinite = false := by
  cases s <;> decide +kernel

theorem isFinite_ofParts_notANumber : (ofParts .notANumber).isFinite = false := by decide +kernel

/-- What is not finite is an infinity or a NaN in its parts. -/
theorem parts_of_not_isFinite (hx : ¬x.isFinite) :
    (∃ s, x.toModel.unpack = .infinity s) ∨ x.toModel.unpack = .notANumber := by
  replace hx : ¬x.toModel.unpack.isFinite := hx
  cases h : x.toModel.unpack <;> simp_all [UnpackedFloat.isFinite]

theorem isFinite_of_mul (h : (x * y).isFinite) : y.isFinite := by
  by_contra hy
  rw [mul_eq_ofParts] at h
  rcases parts_of_not_isFinite hy with ⟨s, hs⟩ | hnan
  · rw [hs] at h
    cases hx : x.toModel.unpack <;>
      simp [hx, UnpackedFloat.mul, isFinite_ofParts_infinity, isFinite_ofParts_notANumber] at h
  · rw [hnan] at h
    cases hx : x.toModel.unpack <;> simp [hx, UnpackedFloat.mul, isFinite_ofParts_notANumber] at h

theorem isFinite_of_div (h : (x / y).isFinite) : x.isFinite := by
  by_contra hx
  rw [div_eq_ofParts] at h
  rcases parts_of_not_isFinite hx with ⟨s, hs⟩ | hnan
  · rw [hs] at h
    cases hy : y.toModel.unpack <;>
      simp [hy, UnpackedFloat.div, isFinite_ofParts_infinity, isFinite_ofParts_notANumber] at h
  · rw [hnan] at h
    cases y.toModel.unpack <;> simp [UnpackedFloat.div, isFinite_ofParts_notANumber] at h

end CharacterSheet.Binary64
