import CharacterSheet.Proofs.Binary64.Sum

/-!
# Rounding a quotient

A product of doubles is a quotient when it is counted in smallest units, since the units of both
factors are multiplied. Rounding a quotient keeps the order, and it does not go past a double that
the quotient does not go past.

* `ratioBits`, `ofRatio_eq_ofSignBits_ratioBits` — the bits of a rounded quotient;
* `ratioBits_mono` — a larger quotient is rounded to no lower bits;
* `le_ratioBits`, `ratioBits_le` — a rounded quotient stays on its side of a double.
-/

namespace CharacterSheet.Binary64

variable {num num' den b : Nat}

/-- The bits below the sign of the double nearest to a quotient of units, before they are cut off at
the infinity. -/
def ratioBits (num den : Nat) : Nat :=
  binade num den * 2 ^ 52 + divHalfEven num (den * 2 ^ binade num den)

theorem ofRatio_eq_ofSignBits_ratioBits (negative : Bool) (num den : Nat) :
    ofRatio negative num den = ofSignBits negative (min (ratioBits num den) infinityBits) := by
  simp only [ofRatio, ratioBits, Nat.pow_eq, leadingOne_eq]

theorem ratioBits_one (num : Nat) : ratioBits num 1 = roundedBits num := by
  rw [ratioBits, roundedBits, Nat.one_mul]

theorem ratioBits_mul_right (num den : Nat) {c : Nat} (hc : 0 < c) :
    ratioBits (num * c) (den * c) = ratioBits num den := by
  have hbinade : binade (num * c) (den * c) = binade num den := by
    rw [binade, binade, Nat.mul_div_mul_right _ _ hc]
  rw [ratioBits, ratioBits, hbinade, Nat.mul_right_comm den c, divHalfEven_mul_right _ _ hc]

/-- A quotient that is a double is rounded to itself. -/
theorem ratioBits_magnitudeOfBits (hden : 0 < den) (hb : b < infinityBits) :
    min (ratioBits (magnitudeOfBits b * den) den) infinityBits = b := by
  have hratio : ratioBits (magnitudeOfBits b * den) den = roundedBits (magnitudeOfBits b) := by
    rw [← ratioBits_one, ← ratioBits_mul_right _ 1 hden, Nat.one_mul]
  rw [hratio, roundedBits_magnitudeOfBits hb]

/-! ### The order of quotients -/

theorem divHalfEven_mono (h : num ≤ num') (den : Nat) :
    divHalfEven num den ≤ divHalfEven num' den := by
  rcases (Nat.div_le_div_right h (c := den)).lt_or_eq with hlt | heq
  · exact (divHalfEven_le num den).trans (hlt.trans_le (div_le_divHalfEven num' den))
  · -- within one quotient the remainders are in order
    have hnum := Nat.div_add_mod num den
    have hnum' := Nat.div_add_mod num' den
    rw [← heq] at hnum'
    unfold divHalfEven
    rw [← heq]
    dsimp only
    split <;> split <;> (try split) <;> (try split) <;> omega

theorem binade_le_binade (h : num ≤ num') (den : Nat) : binade num den ≤ binade num' den := by
  rw [binade, binade, Nat.log2_eq_log_two, Nat.log2_eq_log_two]
  exact Nat.sub_le_sub_right (Nat.log_mono_right (Nat.div_le_div_right h)) 52

/-- A rounded significand is full at most, and above the subnormal doubles it has its leading
one. -/
theorem divHalfEven_binade_bounds (num den : Nat) :
    divHalfEven num (den * 2 ^ binade num den) ≤ 2 ^ 53 ∧
      (binade num den = 0 ∨ 2 ^ 52 ≤ divHalfEven num (den * 2 ^ binade num den)) := by
  have hdiv : num / (den * 2 ^ binade num den) = num / den / 2 ^ binade num den := by
    rw [Nat.div_div_eq_div_mul]
  have hle := divHalfEven_le num (den * 2 ^ binade num den)
  have hge := div_le_divHalfEven num (den * 2 ^ binade num den)
  rw [hdiv] at hle hge
  rcases Nat.eq_zero_or_pos (num / den) with h0 | hpos
  · have hbinade : binade num den = 0 := by rw [binade, h0, Nat.log2_zero, Nat.zero_sub]
    rw [h0, Nat.zero_div] at hle
    exact ⟨hle.trans (by norm_num), .inl hbinade⟩
  · obtain ⟨hhigh, hlow⟩ := div_two_pow_bounds (e := 0) hpos (p := binade num den)
      (by rw [binade, Nat.add_zero]) (Nat.zero_le _)
    rw [Nat.sub_zero] at hhigh hlow
    exact ⟨by omega, hlow.imp_right fun h => h.trans hge⟩

theorem ratioBits_mono (h : num ≤ num') (den : Nat) : ratioBits num den ≤ ratioBits num' den := by
  rcases (binade_le_binade h den).eq_or_lt with heq | hlt
  · rw [ratioBits, ratioBits, heq]
    exact Nat.add_le_add_left (divHalfEven_mono h _) _
  · -- a full significand of the lower binade is an empty one of the next
    have hhigh := (divHalfEven_binade_bounds num den).1
    have hlow := (divHalfEven_binade_bounds num' den).2
    rw [ratioBits, ratioBits]
    omega

theorem le_ratioBits (hden : 0 < den) (hb : b < infinityBits)
    (h : magnitudeOfBits b * den ≤ num) : b ≤ min (ratioBits num den) infinityBits := by
  rw [← ratioBits_magnitudeOfBits hden hb]
  exact min_le_min_right _ (ratioBits_mono h den)

theorem ratioBits_le (hden : 0 < den) (hb : b < infinityBits)
    (h : num ≤ magnitudeOfBits b * den) : min (ratioBits num den) infinityBits ≤ b := by
  rw [← ratioBits_magnitudeOfBits hden hb]
  exact min_le_min_right _ (ratioBits_mono h den)

end CharacterSheet.Binary64
