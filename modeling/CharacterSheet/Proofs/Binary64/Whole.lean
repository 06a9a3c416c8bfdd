import CharacterSheet.Binary64.Integral
import CharacterSheet.Proofs.Binary64.Bounds
import CharacterSheet.Proofs.Binary64.Nearest

/-!
# Whole numbers as doubles

Up to `2 ^ 53` every whole number is a double, and from there on those that have no more than
fifty-three digits in front of their final zeros.

* `IsMagnitude`, `isMagnitude_whole` — the numbers of units that are magnitudes of finite doubles;
* `toRat_ofRatio`, `toRat_ofInt` — a magnitude is rounded to itself;
* `isNearest_ofInt`, `toRat_ofInt_eq_iff` — other whole numbers are rounded to the nearest double;
* `toInt?_eq_some_iff`, `isIntegral_iff` — the doubles that are whole numbers;
* `toRat_floor` — rounding down gives the floor, which is a double;
* `lt_zero_iff`, `beq_zero_iff` — the sign of a double is that of its value.
-/

namespace CharacterSheet.Binary64

variable {negative : Bool} {k m : Nat} {n : Int} {x : Float}

/-! ### Magnitudes -/

/-- A number of units is the magnitude of a finite double. -/
def IsMagnitude (k : Nat) : Prop := ∃ b < infinityBits, magnitudeOfBits b = k

theorem isMagnitude_magnitude (hx : x.isFinite) : IsMagnitude (magnitude x) :=
  ⟨lowBits x, lowBits_lt_of_isFinite hx, (magnitude_eq hx).symm⟩

theorem isMagnitude_mul_two_pow (hm : m < 2 ^ 53) (hlt : m * 2 ^ k < 2 ^ 1024 * unity) :
    IsMagnitude (m * 2 ^ k) := by
  obtain ⟨b, hb⟩ := exists_magnitudeOfBits_eq hm k
  refine ⟨b, magnitudeOfBits_strictMono.lt_iff_lt.1 ?_, hb⟩
  rwa [hb, magnitudeOfBits_infinityBits]

/-- A whole number with at most fifty-three digits in front of its final zeros is a double. -/
theorem isMagnitude_whole (hm : m ≤ 2 ^ 53) (hk : k ≤ 970) : IsMagnitude (m * 2 ^ k * unity) := by
  obtain ⟨u, -, hu⟩ := exists_unity_eq
  have hlt : m * 2 ^ k < 2 ^ 1024 := by
    refine (Nat.mul_le_mul_right _ hm).trans_lt ?_
    rw [← Nat.pow_add]
    exact pow_lt_pow_right₀ one_lt_two (by omega)
  have hbound : m * 2 ^ k * unity < 2 ^ 1024 * unity := Nat.mul_lt_mul_of_pos_right hlt unity_pos
  rcases hm.lt_or_eq with hm | rfl
  · have hunits : m * 2 ^ k * unity = m * 2 ^ (k + u) := by
      rw [hu, Nat.mul_assoc, ← Nat.pow_add]
    rw [hunits] at hbound ⊢
    exact isMagnitude_mul_two_pow hm hbound
  · have hunits : 2 ^ 53 * 2 ^ k * unity = 1 * 2 ^ (53 + k + u) := by
      rw [hu, Nat.one_mul, Nat.pow_add, Nat.pow_add]
    rw [hunits] at hbound ⊢
    exact isMagnitude_mul_two_pow (by norm_num) hbound

theorem isMagnitude_mul_unity (hm : m ≤ 2 ^ 53) : IsMagnitude (m * unity) := by
  simpa only [Nat.pow_zero, Nat.mul_one] using isMagnitude_whole hm (Nat.zero_le 970)

theorem ofRatio_eq_of_isMagnitude (h : IsMagnitude k) (negative : Bool) :
    ∃ b < infinityBits, magnitudeOfBits b = k ∧
      ofRatio negative k 1 = ofSignBits negative b := by
  obtain ⟨b, hb, rfl⟩ := h
  exact ⟨b, hb, rfl, ofRatio_magnitudeOfBits hb⟩

/-- A magnitude is rounded to itself. -/
theorem toRat_ofRatio (h : IsMagnitude k) (negative : Bool) :
    (ofRatio negative k 1).isFinite ∧
      toRat (ofRatio negative k 1) = signedRat negative (k / unity) := by
  obtain ⟨b, hb, rfl, heq⟩ := ofRatio_eq_of_isMagnitude h negative
  rw [heq]
  exact ⟨(isFinite_ofSignBits_iff hb.le).2 hb, toRat_ofSignBits hb.le⟩

/-! ### Whole numbers -/

theorem signedRat_natAbs (n : Int) : signedRat (decide (n < 0)) n.natAbs = n := by
  rw [signedRat, Nat.cast_natAbs, Int.cast_abs]
  split
  · next hn =>
    have hneg : (n : ℚ) < 0 := Int.cast_lt_zero.2 (of_decide_eq_true hn)
    rw [abs_of_neg hneg, neg_neg]
  · next hn =>
    have hnonneg : (0 : ℚ) ≤ n := Int.cast_nonneg (not_lt.1 (mt decide_eq_true hn))
    rw [abs_of_nonneg hnonneg]

theorem natCast_mul_unity_div (k : Nat) : ((k * unity : Nat) : ℚ) / unity = k := by
  rw [Nat.cast_mul, mul_div_cancel_right₀ _ unity_pos_rat.ne']

theorem toRat_ofInt (h : IsMagnitude (n.natAbs * unity)) :
    (ofInt n).isFinite ∧ toRat (ofInt n) = n := by
  obtain ⟨hfinite, hvalue⟩ := toRat_ofRatio h (decide (n < 0))
  refine ⟨hfinite, hvalue.trans ?_⟩
  rw [natCast_mul_unity_div, signedRat_natAbs]

/-- A whole number that fits into a word is rounded to the nearest double. -/
theorem isNearest_ofInt (h : n.natAbs ≤ 2 ^ 63) : IsNearest n (ofInt n) := by
  have hfinite : (ofInt n).isFinite := by
    obtain ⟨b, hb, hvalue⟩ : IsMagnitude (1 * 2 ^ 63 * unity) :=
      isMagnitude_whole (by norm_num) (by norm_num)
    have hbits : min (ratioBits (n.natAbs * unity) 1) infinityBits ≤ b := by
      refine ratioBits_le Nat.one_pos hb ?_
      rw [hvalue, Nat.one_mul, Nat.mul_one]
      exact Nat.mul_le_mul_right _ h
    rw [ofInt, ofRatio_eq_ofSignBits_ratioBits]
    exact (isFinite_ofSignBits_iff (min_le_right _ _)).2 (hbits.trans_lt hb)
  have hnearest := isNearest_ofRatio Nat.one_pos hfinite
  rwa [Nat.cast_one, one_mul, natCast_mul_unity_div, signedRat_natAbs] at hnearest

theorem toRat_eq_intCast_iff : toRat x = n ↔ scaled x = n * unity := by
  rw [toRat, div_eq_iff unity_pos_rat.ne']
  exact_mod_cast Iff.rfl

/-- Past `2 ^ 53` no odd whole number is a double. -/
theorem natAbs_le_or_even (hx : x.isFinite) (h : toRat x = n) : n.natAbs ≤ 2 ^ 53 ∨ Even n := by
  obtain ⟨u, -, hu⟩ := exists_unity_eq
  obtain ⟨negative, b, hb, rfl⟩ := exists_eq_ofSignBits hx
  have hunits : significandOfBits b * 2 ^ exponentOfBits b = n.natAbs * 2 ^ u := by
    have hscaled := congrArg Int.natAbs (toRat_eq_intCast_iff.1 h)
    rw [natAbs_scaled_ofSignBits hb.le, Int.natAbs_mul, Int.natAbs_natCast, hu] at hscaled
    exact hscaled
  have hsignificand : significandOfBits b < 2 ^ 53 := by
    unfold significandOfBits
    split <;> omega
  -- a significand either is cut down to the whole number, or doubled at least once
  rcases Nat.lt_or_ge u (exponentOfBits b) with hlt | hge
  · right
    obtain ⟨d, hd⟩ := Nat.exists_eq_add_of_lt hlt
    have heq : n.natAbs = significandOfBits b * 2 ^ d * 2 := by
      refine Nat.eq_of_mul_eq_mul_right (Nat.two_pow_pos u) ?_
      rw [← hunits, hd, Nat.pow_succ, Nat.pow_add]
      ring
    rw [← Int.natAbs_even, heq]
    exact even_two.mul_left _
  · left
    have hle : n.natAbs * 2 ^ u ≤ significandOfBits b * 2 ^ u :=
      hunits ▸ Nat.mul_le_mul_left _ (Nat.pow_le_pow_right Nat.two_pos hge)
    exact (Nat.le_of_mul_le_mul_right hle (Nat.two_pow_pos u)).trans hsignificand.le

/-- Up to double the limit, rounding keeps what is even or within the limit. -/
theorem toRat_ofInt_eq_iff (h : n.natAbs ≤ 2 ^ 54) :
    toRat (ofInt n) = n ↔ n.natAbs ≤ 2 ^ 53 ∨ Even n := by
  refine ⟨natAbs_le_or_even (isNearest_ofInt (h.trans (by norm_num))).isFinite, fun hn => ?_⟩
  refine (toRat_ofInt ?_).2
  rcases hn with hn | hn
  · exact isMagnitude_mul_unity hn
  · obtain ⟨m, hm⟩ := Int.natAbs_even.2 hn
    have hmagnitude : IsMagnitude (m * 2 ^ 1 * unity) :=
      isMagnitude_whole (by omega) (by norm_num)
    rwa [Nat.pow_one, Nat.mul_two, ← hm] at hmagnitude

/-- The doubles that have an integer value. -/
theorem toInt?_eq_some_iff : toInt? x = some n ↔ x.isFinite ∧ toRat x = n := by
  have hdvd : magnitude x % unity = 0 ↔ (unity : Int) ∣ scaled x := by
    rw [← natAbs_scaled, Int.natCast_dvd, Nat.dvd_iff_mod_eq_zero]
  have hpos : (unity : Int) ≠ 0 := Int.natCast_ne_zero.2 unity_pos.ne'
  rw [toRat_eq_intCast_iff, toInt?, isIntegral]
  by_cases hwhole : x.isFinite ∧ magnitude x % unity = 0
  · rw [if_pos (by simpa using hwhole), Option.some_inj,
      Int.ediv_eq_iff_eq_mul_left hpos (hdvd.1 hwhole.2), and_iff_right hwhole.1]
  · rw [if_neg (by simpa using hwhole)]
    refine iff_of_false nofun fun hvalue => hwhole ⟨hvalue.1, ?_⟩
    rw [hdvd, hvalue.2]
    exact Dvd.intro_left n rfl

theorem isIntegral_iff : isIntegral x = true ↔ x.isFinite ∧ ∃ n : Int, toRat x = n := by
  constructor
  · intro h
    have hsome : toInt? x = some (scaled x / unity) := if_pos h
    obtain ⟨hx, hn⟩ := toInt?_eq_some_iff.1 hsome
    exact ⟨hx, _, hn⟩
  · rintro ⟨hx, n, hn⟩
    by_contra h
    have hsome := toInt?_eq_some_iff.2 ⟨hx, hn⟩
    rw [toInt?, if_neg h] at hsome
    cases hsome

/-! ### Rounding down -/

/-- A double with a fractional part is below `2 ^ 53`. -/
theorem unity_dvd_or_lt (hx : x.isFinite) :
    unity ∣ magnitude x ∨ magnitude x < 2 ^ 53 * unity := by
  obtain ⟨u, -, hu⟩ := exists_unity_eq
  obtain ⟨negative, b, hb, rfl⟩ := exists_eq_ofSignBits hx
  rw [magnitude_ofSignBits hb.le, hu]
  rcases Nat.le_total u (exponentOfBits b) with hle | hge
  · exact .inl ((Nat.pow_dvd_pow 2 hle).mul_left _)
  · right
    calc magnitudeOfBits b < 2 ^ (53 + u) := magnitudeOfBits_lt_two_pow hge
      _ = 2 ^ 53 * 2 ^ u := Nat.pow_add 2 53 u

theorem isMagnitude_of_between (hx : x.isFinite) (hdown : magnitude x / unity ≤ m)
    (hup : m ≤ divUp (magnitude x) unity) : IsMagnitude (m * unity) := by
  have hpos := unity_pos
  rcases unity_dvd_or_lt hx with ⟨k, hk⟩ | hlt
  · -- a whole number has nothing to round
    rw [hk, Nat.mul_div_cancel_left _ hpos] at hdown
    rw [hk, divUp, Nat.mul_add_div hpos, Nat.div_eq_of_lt (by omega), Nat.add_zero] at hup
    rw [Nat.le_antisymm hup hdown, Nat.mul_comm, ← hk]
    exact isMagnitude_magnitude hx
  · refine isMagnitude_mul_unity (hup.trans ?_)
    rw [divUp, Nat.div_le_iff_le_mul_add_pred hpos, Nat.mul_comm]
    omega

theorem toRat_roundBy {f : Bool → Nat → Nat} (hx : x.isFinite)
    (hdown : magnitude x / unity ≤ f (isNegative x) (magnitude x))
    (hup : f (isNegative x) (magnitude x) ≤ divUp (magnitude x) unity) :
    (roundBy f x).isFinite ∧
      toRat (roundBy f x) = signedRat (isNegative x) (f (isNegative x) (magnitude x)) := by
  obtain ⟨hfinite, hvalue⟩ := toRat_ofRatio (isMagnitude_of_between hx hdown hup) (isNegative x)
  rw [roundBy, if_pos hx]
  exact ⟨hfinite, hvalue.trans (by rw [natCast_mul_unity_div])⟩

theorem neg_ediv_natCast {den : Nat} (hden : 0 < den) (num : Nat) :
    -(num : Int) / den = -(divUp num den : Nat) := by
  have hdiv := Nat.div_add_mod (num + (den - 1)) den
  have hmod := Nat.mod_lt (num + (den - 1)) hden
  rw [Int.ediv_eq_iff_of_pos (by omega), Int.neg_mul, ← Int.natCast_mul, Nat.mul_comm]
  unfold divUp
  omega

/-- Rounding down gives the floor. -/
theorem toRat_floor (hx : x.isFinite) : (floor x).isFinite ∧ toRat (floor x) = ⌊toRat x⌋ := by
  have hpos := unity_pos
  have hle : magnitude x / unity ≤ divUp (magnitude x) unity :=
    Nat.div_le_div_right (Nat.le_add_right _ _)
  obtain ⟨hfinite, hvalue⟩ := toRat_roundBy
    (f := fun negative k => if negative then divUp k unity else k / unity) hx
    (by split <;> omega) (by split <;> omega)
  refine ⟨hfinite, hvalue.trans ?_⟩
  have hscaled : ⌊toRat x⌋ = scaled x / (unity : Int) := Rat.floor_intCast_div_natCast _ _
  rw [hscaled, scaled, signedRat]
  split
  · rw [neg_ediv_natCast hpos, Int.cast_neg, Int.cast_natCast]
  · rw [← Int.natCast_ediv, Int.cast_natCast]

/-! ### Signs -/

theorem toRat_neg_iff : toRat x < 0 ↔ scaled x < 0 := by
  rw [toRat, div_lt_iff₀ unity_pos_rat, zero_mul]
  exact Int.cast_lt_zero

theorem lt_zero_iff (hx : x.isFinite) : x < 0 ↔ toRat x < 0 := by
  rw [toRat_neg_iff, lt_iff_level (isNaN_of_isFinite hx) (by decide), ← not_le, ← not_le]
  exact not_congr (level_nonneg_iff hx)

theorem lowBits_eq_zero_iff (hx : x.isFinite) : lowBits x = 0 ↔ toRat x = 0 := by
  have hzero : magnitudeOfBits (lowBits x) = 0 ↔ lowBits x = 0 :=
    magnitudeOfBits_strictMono.injective.eq_iff' magnitudeOfBits_zero
  rw [toRat, div_eq_zero_iff, or_iff_left unity_pos_rat.ne', Int.cast_eq_zero, ← Int.natAbs_eq_zero,
    natAbs_scaled, magnitude_eq hx, hzero]

theorem beq_zero_iff (hx : x.isFinite) : (x == 0) = true ↔ toRat x = 0 := by
  have hbeq : (x == 0) = x.toModel.unpack.beq (0 : Float).toModel.unpack := rfl
  have hlevel : level x = 0 ↔ lowBits x = 0 := by
    unfold level signed
    split <;> omega
  rw [hbeq, Float.Model.UnpackedFloat.beq, compare_eq (isNaN_of_isFinite hx) (by decide),
    ← lowBits_eq_zero_iff hx, ← hlevel, beq_iff_eq, Option.some_inj, Int.compare_eq_eq]
  rfl

end CharacterSheet.Binary64
