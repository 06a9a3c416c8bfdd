import CharacterSheet.Proofs.Binary64.Product

/-!
# The double nearest to a number

A finite double is a rational number, and what rounding makes of a number is the double nearest to
it: no other one is closer, and of two that are equally close it is the one with the even
significand.

* `toRat`, `IsNearest` — the value of a double, and the double nearest to a number;
* `IsNearest.le_of_le`, `IsNearest.ge_of_ge`, `isNearest_toRat` — the nearest double stays on its side
  of a double, and a double is nearest to itself;
* `divHalfEven_nearest`, `ratioBits_nearest` — rounding on one grid of doubles, and on all;
* `isNearest_ofRatio` — a quotient of units is rounded to the nearest double.
-/

namespace CharacterSheet.Binary64

variable {negative : Bool} {num den m b : Nat} {x y : Float} {q : ℚ}

/-- The value of a finite double. -/
def toRat (x : Float) : ℚ := scaled x / unity

/-- A finite double is as near to a number as any other. Where another one is as near, the
significand is even. -/
structure IsNearest (q : ℚ) (x : Float) : Prop where
  isFinite : x.isFinite
  le : ∀ y : Float, y.isFinite → |q - toRat x| ≤ |q - toRat y|
  even : ∀ y : Float, y.isFinite → toRat y ≠ toRat x → |q - toRat y| = |q - toRat x| →
    significand x % 2 = 0

namespace IsNearest

theorem le_of_le (h : IsNearest q x) (hy : y.isFinite) (hq : q ≤ toRat y) :
    toRat x ≤ toRat y := by
  by_contra hlt
  rw [not_le] at hlt
  have hle := h.le y hy
  rw [abs_of_nonpos (by linarith), abs_of_nonpos (by linarith)] at hle
  linarith

theorem ge_of_ge (h : IsNearest q x) (hy : y.isFinite) (hq : toRat y ≤ q) :
    toRat y ≤ toRat x := by
  by_contra hlt
  rw [not_le] at hlt
  have hle := h.le y hy
  rw [abs_of_nonneg (by linarith), abs_of_nonneg (by linarith)] at hle
  linarith

end IsNearest

/-- A finite double is nearest to its own value. -/
theorem isNearest_toRat (hx : x.isFinite) : IsNearest (toRat x) x := by
  refine ⟨hx, fun y _ => ?_, fun y _ hne htie => ?_⟩
  · rw [sub_self, abs_zero]
    exact abs_nonneg _
  · rw [sub_self, abs_zero, abs_eq_zero, sub_eq_zero] at htie
    exact absurd htie.symm hne

/-! ### Rounding on a grid -/

theorem divHalfEven_cases (num den : Nat) :
    divHalfEven num den = num / den ∧ 2 * (num % den) ≤ den ∧
        (2 * (num % den) = den → divHalfEven num den % 2 = 0) ∨
      divHalfEven num den = num / den + 1 ∧ den ≤ 2 * (num % den) ∧
        (2 * (num % den) = den → divHalfEven num den % 2 = 0) := by
  unfold divHalfEven
  dsimp only
  split
  · omega
  · split <;> omega

/-- How far two numbers of units are apart. -/
def gap (j k : Nat) : Nat := ((j : Int) - k).natAbs

/-- No multiple of `den` is nearer to `num` than the rounded one, and where another one is as near,
the rounded one is even. -/
theorem divHalfEven_nearest (hden : 0 < den) (num m : Nat) :
    gap num (divHalfEven num den * den) ≤ gap num (m * den) ∧
      (m ≠ divHalfEven num den → gap num (m * den) = gap num (divHalfEven num den * den) →
        divHalfEven num den % 2 = 0) := by
  have hnum := Nat.div_add_mod' num den
  have hlt := Nat.mod_lt num hden
  have hsucc : (num / den + 1) * den = num / den * den + den := Nat.succ_mul _ _
  -- a multiple is one of the two next to the quotient, or further away than both
  have hm : m = num / den ∨ m = num / den + 1 ∨ m * den + den ≤ num / den * den ∨
      num / den * den + 2 * den ≤ m * den := by
    rcases Nat.lt_trichotomy m (num / den) with hm | hm | hm
    · refine .inr (.inr (.inl ?_))
      rw [← Nat.succ_mul]
      exact Nat.mul_le_mul_right den hm
    · exact .inl hm
    · rcases Nat.eq_or_lt_of_le (Nat.succ_le_of_lt hm) with hm | hm
      · exact .inr (.inl hm.symm)
      · refine .inr (.inr (.inr ?_))
        rw [← Nat.add_mul]
        exact Nat.mul_le_mul_right den hm
  unfold gap
  rcases divHalfEven_cases num den with ⟨hr, hhalf, htie⟩ | ⟨hr, hhalf, htie⟩ <;>
    rw [hr] at htie ⊢ <;> rcases hm with rfl | rfl | hm | hm <;> omega

/-! ### Rounding to a double -/

/-- The parts of a rounded quotient. A full significand is an empty one of the next binade. -/
theorem exists_parts_ratioBits (num den : Nat) : ∃ p m, ratioBits num den = p * 2 ^ 52 + m ∧
    m < 2 ^ 53 ∧ (p = 0 ∨ 2 ^ 52 ≤ m) ∧
    m * 2 ^ p = divHalfEven num (den * 2 ^ binade num den) * 2 ^ binade num den ∧
    (divHalfEven num (den * 2 ^ binade num den) % 2 = 0 → m % 2 = 0) := by
  obtain ⟨hhigh, hlow⟩ := divHalfEven_binade_bounds num den
  rw [ratioBits]
  rcases hhigh.lt_or_eq with hlt | heq
  · exact ⟨_, _, rfl, hlt, hlow, rfl, id⟩
  · refine ⟨binade num den + 1, 2 ^ 52, ?_, by norm_num, .inr le_rfl, ?_, fun _ => by norm_num⟩
    · rw [heq]
      ring
    · rw [heq, Nat.pow_succ']
      ring

theorem magnitudeOfBits_ratioBits (num den : Nat) : magnitudeOfBits (ratioBits num den) =
    divHalfEven num (den * 2 ^ binade num den) * 2 ^ binade num den := by
  obtain ⟨p, m, hbits, hm, hp, hvalue, -⟩ := exists_parts_ratioBits num den
  rw [hbits, magnitudeOfBits_of_parts hm hp, hvalue]

theorem even_significandOfBits_ratioBits
    (h : divHalfEven num (den * 2 ^ binade num den) % 2 = 0) :
    significandOfBits (ratioBits num den) % 2 = 0 := by
  obtain ⟨p, m, hbits, hm, hp, -, heven⟩ := exists_parts_ratioBits num den
  rw [hbits, (parts_of_bits hm hp).1, heven h]

/-- A quotient reaches the smallest full significand of its binade. -/
theorem two_pow_mul_le_num (hden : 0 < den) (h : 0 < binade num den) :
    2 ^ 52 * (den * 2 ^ binade num den) ≤ num := by
  have hlog : (num / den).log2 = 52 + binade num den := by
    rw [binade] at h ⊢
    omega
  have hne : num / den ≠ 0 := by
    intro h0
    rw [binade, h0, Nat.log2_zero] at h
    exact absurd h (by decide)
  have hle := Nat.log2_self_le hne
  rw [hlog, Nat.le_div_iff_mul_le hden, Nat.pow_add] at hle
  linarith

/-- The magnitude of no double is nearer to a quotient than the rounded one, and where another one
is as near, the rounded significand is even. -/
theorem ratioBits_nearest (hden : 0 < den) (num b : Nat) :
    gap num (magnitudeOfBits (ratioBits num den) * den) ≤ gap num (magnitudeOfBits b * den) ∧
      (magnitudeOfBits b ≠ magnitudeOfBits (ratioBits num den) →
        gap num (magnitudeOfBits b * den) =
          gap num (magnitudeOfBits (ratioBits num den) * den) →
        significandOfBits (ratioBits num den) % 2 = 0) := by
  have hgrid := divHalfEven_nearest (Nat.mul_pos hden (Nat.two_pow_pos (binade num den))) num
  have hrounded : magnitudeOfBits (ratioBits num den) * den =
      divHalfEven num (den * 2 ^ binade num den) * (den * 2 ^ binade num den) := by
    rw [magnitudeOfBits_ratioBits]
    ring
  rw [hrounded]
  rcases Nat.lt_or_ge (exponentOfBits b) (binade num den) with hlt | hge
  · -- below the binade of the quotient, its smallest full significand is nearer
    have hfar : magnitudeOfBits b * den < 2 ^ 52 * (den * 2 ^ binade num den) := by
      have hmagnitude : magnitudeOfBits b < 2 ^ (53 + (binade num den - 1)) :=
        magnitudeOfBits_lt_two_pow (by unfold exponentOfBits at hlt; omega)
      have hexponent : 53 + (binade num den - 1) = 52 + binade num den := by omega
      rw [hexponent, Nat.pow_add] at hmagnitude
      calc magnitudeOfBits b * den < 2 ^ 52 * 2 ^ binade num den * den :=
            Nat.mul_lt_mul_of_pos_right hmagnitude hden
        _ = 2 ^ 52 * (den * 2 ^ binade num den) := by ring
    have hreached := two_pow_mul_le_num hden (by omega : 0 < binade num den)
    have hnear := (hgrid (2 ^ 52)).1
    have hstrict : gap num (2 ^ 52 * (den * 2 ^ binade num den)) <
        gap num (magnitudeOfBits b * den) := by
      unfold gap
      omega
    exact ⟨(hnear.trans_lt hstrict).le, fun _ htie => absurd htie (hnear.trans_lt hstrict).ne'⟩
  · -- from the binade on, the magnitudes of doubles are on its grid
    obtain ⟨m, hm⟩ : ∃ m, magnitudeOfBits b = m * 2 ^ binade num den := by
      refine ⟨significandOfBits b * 2 ^ (exponentOfBits b - binade num den), ?_⟩
      rw [Nat.mul_assoc, ← Nat.pow_add, Nat.sub_add_cancel hge]
      rfl
    have hmultiple : magnitudeOfBits b * den = m * (den * 2 ^ binade num den) := by
      rw [hm]
      ring
    rw [hmultiple]
    refine ⟨(hgrid m).1, fun hne htie => even_significandOfBits_ratioBits ((hgrid m).2 ?_ htie)⟩
    rintro rfl
    exact hne (hm.trans (magnitudeOfBits_ratioBits num den).symm)

/-! ### Values -/

theorem unity_pos_rat : (0 : ℚ) < unity := Nat.cast_pos.2 unity_pos

/-- A rational number under a sign. -/
def signedRat (negative : Bool) (r : ℚ) : ℚ := if negative then -r else r

theorem signedRat_div (negative : Bool) (r u : ℚ) :
    signedRat negative (r / u) = signedRat negative r / u := by
  unfold signedRat
  split
  · rw [neg_div]
  · rfl

theorem abs_signedRat (negative : Bool) (r : ℚ) : |signedRat negative r| = |r| := by
  cases negative
  · rfl
  · exact abs_neg r

/-- The value of a double is its magnitude under its sign. -/
theorem toRat_eq_signedRat (x : Float) :
    toRat x = signedRat (isNegative x) (magnitude x / unity) := by
  unfold toRat scaled signedRat
  split
  · rw [Int.cast_neg, Int.cast_natCast, neg_div]
  · rw [Int.cast_natCast]

theorem abs_toRat (x : Float) : |toRat x| = magnitude x / unity := by
  rw [toRat_eq_signedRat, abs_signedRat,
    abs_of_nonneg (div_nonneg (Nat.cast_nonneg _) unity_pos_rat.le)]

theorem toRat_ofSignBits (hb : b ≤ infinityBits) :
    toRat (ofSignBits negative b) = signedRat negative (magnitudeOfBits b / unity) := by
  rw [toRat_eq_signedRat, isNegative_ofSignBits hb, magnitude_ofSignBits hb]

theorem abs_signedRat_sub (negative : Bool) (r s : ℚ) :
    |signedRat negative r - signedRat negative s| = |r - s| := by
  cases negative
  · rfl
  · rw [signedRat, signedRat, if_pos rfl, if_pos rfl, ← abs_neg]
    congr 1
    ring

theorem abs_signedRat_sub_of_ne {n n' : Bool} (hn : n ≠ n') (r s : ℚ) :
    |signedRat n r - signedRat n' s| = |r + s| := by
  have hopposite : signedRat n' s = signedRat n (-s) := by
    cases n <;> cases n' <;> simp_all [signedRat]
  rw [hopposite, abs_signedRat_sub, sub_neg_eq_add]

theorem abs_sub_le_abs_signedRat_sub (n n' : Bool) {r s : ℚ} (hr : 0 ≤ r) (hs : 0 ≤ s) :
    |r - s| ≤ |signedRat n r - signedRat n' s| := by
  by_cases hn : n = n'
  · rw [hn, abs_signedRat_sub]
  · rw [abs_signedRat_sub_of_ne hn, abs_of_nonneg (add_nonneg hr hs)]
    exact abs_sub_le_iff.2 ⟨by linarith, by linarith⟩

/-- The distance of a quotient of units from a magnitude. -/
theorem abs_ratio_sub (hden : 0 < den) (num k : Nat) :
    |(num / (den * unity) : ℚ) - k / unity| = gap num (k * den) / (den * unity) := by
  have hpos := unity_pos_rat
  have hden : (0 : ℚ) < den := Nat.cast_pos.2 hden
  generalize (unity : ℚ) = u at *
  have hgap : ((gap num (k * den) : Nat) : ℚ) = |(num : ℚ) - k * den| := by
    rw [gap, Nat.cast_natAbs]
    push_cast
    rfl
  have hsub : (num / (den * u) : ℚ) - k / u = (num - k * den) / (den * u) := by
    field_simp
  rw [hsub, abs_div, hgap, abs_of_pos (mul_pos hden hpos)]

theorem significand_ofSignBits (hb : b ≤ infinityBits) :
    significand (ofSignBits negative b) = significandOfBits b := by
  rw [significand, exponentField_ofSignBits hb, fractionField_ofSignBits hb]
  rfl

/-- Of two opposite numbers only zero is as near to a number as the one with its sign. -/
theorem eq_zero_of_abs_add_eq {r s : ℚ} (hr : 0 ≤ r) (hs : 0 ≤ s) (h : |r + s| = |r - s|) :
    r = 0 ∨ s = 0 := by
  rw [abs_of_nonneg (add_nonneg hr hs)] at h
  rcases abs_choice (r - s) with habs | habs <;> rw [habs] at h
  · exact .inr (by linarith)
  · exact .inl (by linarith)

/-! ### Rounding a quotient of units -/

theorem quotient_nonneg (num den : Nat) : (0 : ℚ) ≤ num / (den * unity) :=
  div_nonneg (Nat.cast_nonneg _) (mul_nonneg (Nat.cast_nonneg _) unity_pos_rat.le)

theorem magnitudeOfBits_div_nonneg (b : Nat) : (0 : ℚ) ≤ magnitudeOfBits b / unity :=
  div_nonneg (Nat.cast_nonneg _) unity_pos_rat.le

/-- The distance of a quotient of units from a double with its sign. -/
theorem abs_sub_toRat_ofSignBits (hden : 0 < den) (hb : b ≤ infinityBits) :
    |signedRat negative (num / (den * unity)) - toRat (ofSignBits negative b)| =
      gap num (magnitudeOfBits b * den) / (den * unity) := by
  rw [toRat_ofSignBits hb, abs_signedRat_sub, abs_ratio_sub hden]

/-- A double of the other sign is no nearer than the one with the same bits. -/
theorem gap_le_abs_sub_toRat (hden : 0 < den) (n : Bool) (hb : b ≤ infinityBits) :
    (gap num (magnitudeOfBits b * den) / (den * unity) : ℚ) ≤
      |signedRat negative (num / (den * unity)) - toRat (ofSignBits n b)| := by
  rw [toRat_ofSignBits hb, ← abs_ratio_sub hden]
  exact abs_sub_le_abs_signedRat_sub _ _ (quotient_nonneg num den) (magnitudeOfBits_div_nonneg b)

/-- Where the rounded double is as near under the other sign, it is zero under both. -/
theorem toRat_eq_of_tie (hden : 0 < den) (n : Bool) (hb : ratioBits num den ≤ infinityBits)
    (htie : |signedRat negative (num / (den * unity)) - toRat (ofSignBits n (ratioBits num den))| =
      |signedRat negative (num / (den * unity)) -
        toRat (ofSignBits negative (ratioBits num den))|) :
    toRat (ofSignBits n (ratioBits num den)) = toRat (ofSignBits negative (ratioBits num den)) := by
  by_cases hn : negative = n
  · rw [hn]
  rw [toRat_ofSignBits hb, toRat_ofSignBits hb, abs_signedRat_sub_of_ne hn, abs_signedRat_sub]
    at htie
  have hzero : (magnitudeOfBits (ratioBits num den) / unity : ℚ) = 0 := by
    refine (eq_zero_of_abs_add_eq (quotient_nonneg num den) (magnitudeOfBits_div_nonneg _)
      htie).elim (fun h0 => ?_) id
    have hscale : (den * unity : ℚ) ≠ 0 :=
      (mul_pos (Nat.cast_pos.2 hden) unity_pos_rat).ne'
    have hnum : num = 0 := by
      rw [div_eq_zero_iff, Nat.cast_eq_zero] at h0
      exact h0.resolve_right hscale
    rw [hnum, ratioBits_zero, magnitudeOfBits_zero, Nat.cast_zero, zero_div]
  rw [toRat_ofSignBits hb, toRat_ofSignBits hb, hzero]
  cases negative <;> cases n <;> simp [signedRat]

/-- The double to which a quotient of units is rounded is the nearest one, unless it is an
infinity. -/
theorem isNearest_ofRatio (hden : 0 < den) (hfinite : (ofRatio negative num den).isFinite) :
    IsNearest (signedRat negative (num / (den * unity))) (ofRatio negative num den) := by
  have hbits : ratioBits num den < infinityBits := by
    rw [ofRatio_eq_ofSignBits_ratioBits, isFinite_ofSignBits_iff (min_le_right _ _)] at hfinite
    omega
  have hrounded : ofRatio negative num den = ofSignBits negative (ratioBits num den) := by
    rw [ofRatio_eq_ofSignBits_ratioBits, Nat.min_eq_left hbits.le]
  have hscale : (0 : ℚ) < den * unity := mul_pos (Nat.cast_pos.2 hden) unity_pos_rat
  have hnearest (b : Nat) :
      (gap num (magnitudeOfBits (ratioBits num den) * den) / (den * unity) : ℚ) ≤
        gap num (magnitudeOfBits b * den) / (den * unity) :=
    div_le_div_of_nonneg_right (Nat.cast_le.2 (ratioBits_nearest hden num b).1) hscale.le
  rw [hrounded] at hfinite ⊢
  refine ⟨hfinite, fun y hy => ?_, fun y hy hne htie => ?_⟩
  · obtain ⟨n, b, hb, rfl⟩ := exists_eq_ofSignBits hy
    rw [abs_sub_toRat_ofSignBits hden hbits.le]
    exact (hnearest b).trans (gap_le_abs_sub_toRat hden n hb.le)
  · obtain ⟨n, b, hb, rfl⟩ := exists_eq_ofSignBits hy
    rw [significand_ofSignBits hbits.le]
    refine (ratioBits_nearest hden num b).2 (fun hmagnitude => hne ?_) ?_
    · obtain rfl := magnitudeOfBits_strictMono.injective hmagnitude
      exact toRat_eq_of_tie hden n hbits.le htie
    · rw [abs_sub_toRat_ofSignBits hden hbits.le] at htie
      have hle := (gap_le_abs_sub_toRat hden n hb.le).trans htie.le
      have heq := le_antisymm hle (hnearest b)
      rwa [div_left_inj' hscale.ne', Nat.cast_inj] at heq

end CharacterSheet.Binary64
