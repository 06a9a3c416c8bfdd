import CharacterSheet.Decimal.Shortest
import CharacterSheet.Proofs.Binary64.Bits

/-!
# The text of a double reads back

A double that was read from a decimal is written as a decimal that gives the same double again. The
search for a short text may stop at any decimal that reads as the double, and where it stops at none
the magnitude is written out in full, which is exact.

* `toFloat_shortest` — the decimal that a finite double is written as gives this double;
* `read?_toChars` — the text of a decimal is read as a decimal of the same value;
* `exists_read?_text` — the text of a finite double is read as that double.
-/

namespace CharacterSheet

open Binary64

/-! ### Counting digits -/

theorem digitCount_le_iff {n m : Nat} (hm : 0 < m) : digitCount n ≤ m ↔ n < 10 ^ m :=
  Nat.length_toDigits_le_iff (by norm_num) hm

theorem digitCount_mul_ten {n : Nat} (hn : 0 < n) : digitCount (n * 10) = digitCount n + 1 := by
  have happend := Nat.toDigits_append_toDigits (b := 10) (by norm_num) hn (d := 0) (by norm_num)
  rw [Nat.add_zero, Nat.mul_comm] at happend
  rw [digitCount, ← happend, Nat.toDigits_zero, List.length_append]
  rfl

theorem digitCount_mul_ten_pow {n : Nat} (hn : 0 < n) (e : Nat) :
    digitCount (n * 10 ^ e) = digitCount n + e := by
  induction e with
  | zero => rw [Nat.pow_zero, Nat.mul_one, Nat.add_zero]
  | succ e ih =>
    rw [Nat.pow_succ, ← Nat.mul_assoc, digitCount_mul_ten (by positivity), ih, Nat.add_assoc]

namespace Decimal

variable {b : Nat}

/-! ### The value of the shortest decimal -/

theorem exists_toFloat_eq (negative : Bool) (d : Decimal) :
    ∃ bits ≤ infinityBits, d.toFloat negative = ofSignBits negative bits := by
  unfold toFloat
  dsimp only
  split
  · exact exists_ofRatio_eq negative 0 1
  split
  · exact ⟨infinityBits, le_rfl, rfl⟩
  · exact exists_ofRatio_eq negative _ _

/-- What reads as a magnitude reads as the double of this magnitude. -/
theorem toFloat_of_readsAs {d : Decimal} (h : d.readsAs (magnitudeOfBits b)) :
    d.toFloat false = ofSignBits false b := by
  obtain ⟨b', hb', hd⟩ := exists_toFloat_eq false d
  have hmagnitude : magnitudeOfBits b' = magnitudeOfBits b := by
    have hreads : magnitude (d.toFloat false) = magnitudeOfBits b := beq_iff_eq.1 h
    rw [← hreads, hd, magnitude_ofSignBits hb']
  rw [hd, magnitudeOfBits_strictMono.injective hmagnitude]

theorem toFloat_eq_ofRatio {negative : Bool} {d : Decimal} (hd : d.coefficient ≠ 0)
    (hlow : -rangePlaces ≤ digitCount d.coefficient + d.exponent)
    (hhigh : digitCount d.coefficient + d.exponent ≤ rangePlaces) :
    d.toFloat negative = ofRatio negative (d.coefficient * 10 ^ d.exponent.toNat * unity)
      (10 ^ (-d.exponent).toNat) := by
  rw [toFloat, if_neg, if_neg (not_lt.2 hhigh)]
  · rfl
  · simpa [hd] using hlow

theorem digitCount_mul_bounds {k bound c low high : Nat} (hpos : 0 < k) (hk : k < bound)
    (hlow : 10 ^ low ≤ c) (hhigh : bound * c ≤ 10 ^ high) (hl : 0 < low) (hh : 0 < high) :
    low < digitCount (k * c) ∧ digitCount (k * c) ≤ high := by
  have hc : 0 < c := (Nat.pow_pos (by norm_num)).trans_le hlow
  constructor
  · refine Nat.lt_of_not_le fun h => ?_
    have hlt := (digitCount_le_iff hl).1 h
    exact absurd (hlow.trans (Nat.le_mul_of_pos_left c hpos)) (Nat.not_le_of_gt hlt)
  · exact (digitCount_le_iff hh).2 ((Nat.mul_lt_mul_of_pos_right hk hc).trans_le hhigh)

theorem coefficient_exact (k : Nat) : (exact k).coefficient = k * 5 ^ 1074 := by
  rw [exact, Nat.pow_eq]

/-- A magnitude that is written out in full has its digits within the range of doubles. -/
theorem digitCount_exact {k : Nat} (hpos : 0 < k) (hk : k < 2 ^ (53 + 2045)) :
    673 < digitCount (exact k).coefficient ∧ digitCount (exact k).coefficient ≤ 1474 := by
  have hlow : 10 ^ 673 ≤ 5 ^ 1074 := by decide +kernel
  have hhigh : 2 ^ (53 + 2045) * 5 ^ 1074 ≤ 10 ^ 1474 := by decide +kernel
  rw [coefficient_exact]
  exact digitCount_mul_bounds hpos hk hlow hhigh (by norm_num) (by norm_num)

theorem ofRatio_exact (negative : Bool) (k places : Nat) :
    ofRatio negative (k * 5 ^ places * 10 ^ 0 * 2 ^ places) (10 ^ places) =
      ofRatio negative k 1 := by
  have hnum : k * 5 ^ places * 10 ^ 0 * 2 ^ places = k * 10 ^ places := by
    rw [Nat.pow_zero, Nat.mul_one, Nat.mul_assoc, ← Nat.mul_pow]
  have hpos : 0 < 10 ^ places := Nat.pow_pos (by norm_num)
  have hscale : ofRatio negative (k * 10 ^ places) (1 * 10 ^ places) = ofRatio negative k 1 :=
    ofRatio_mul_right k 1 hpos
  rwa [Nat.one_mul, ← hnum] at hscale

/-- A magnitude that is written out in full reads as its double. -/
theorem toFloat_exact (hb : b < infinityBits) (h0 : b ≠ 0) :
    (exact (magnitudeOfBits b)).toFloat false = ofSignBits false b := by
  have hpos : 0 < magnitudeOfBits b :=
    (Nat.zero_le _).trans_lt (magnitudeOfBits_strictMono (Nat.pos_of_ne_zero h0))
  obtain ⟨hlow, hhigh⟩ := digitCount_exact hpos (magnitudeOfBits_lt hb)
  have hne : (exact (magnitudeOfBits b)).coefficient ≠ 0 := by
    intro hzero
    rw [hzero] at hlow
    exact absurd hlow (by decide)
  have hexponent : (exact (magnitudeOfBits b)).exponent = -1074 := rfl
  rw [toFloat_eq_ofRatio hne (by rw [hexponent, rangePlaces]; omega)
    (by rw [hexponent, rangePlaces]; omega), ← ofRatio_magnitudeOfBits hb]
  exact ofRatio_exact false (magnitudeOfBits b) 1074

theorem readsAs_of_onGrid? {k : Nat} {e : Int} {d : Decimal} (h : onGrid? k e = some d) :
    d.readsAs k := by
  unfold onGrid? at h
  dsimp only at h
  split at h
  · next hbelow habove =>
    obtain rfl := Option.some.inj h
    split
    · exact hbelow
    · exact habove
  · next hbelow _ =>
    obtain rfl := Option.some.inj h
    exact hbelow
  · next habove =>
    obtain rfl := Option.some.inj h
    exact habove
  · cases h

/-- The shortest decimal of a magnitude reads as the double of this magnitude. -/
theorem toFloat_shortest (hb : b < infinityBits) :
    (shortest (magnitudeOfBits b)).toFloat false = ofSignBits false b := by
  unfold shortest
  split
  · next hk =>
    have hzero : magnitudeOfBits b = magnitudeOfBits 0 := hk
    rw [magnitudeOfBits_strictMono.injective hzero]
    rfl
  · next hk =>
    have h0 : b ≠ 0 := by
      rintro rfl
      exact hk rfl
    dsimp only
    rcases hfind : (List.range 19).findSome? _ with _ | d
    · -- no multiple on the nineteen grids reads as the magnitude
      exact toFloat_exact hb h0
    · obtain ⟨i, -, hi⟩ := List.exists_of_findSome?_eq_some hfind
      exact toFloat_of_readsAs (readsAs_of_onGrid? hi)

/-! ### The text of a decimal -/

theorem read?_digits {ds : List Char} (hne : ds ≠ []) (hds : ∀ c ∈ ds, c.isDigit) :
    read? ds = some ⟨Nat.ofDigitChars 10 ds 0, 0⟩ := by
  have htake : ds.takeWhile Char.isDigit = ds := List.takeWhile_eq_self_iff.2 hds
  have hdrop : ds.dropWhile Char.isDigit = [] := List.dropWhile_eq_nil_iff.2 hds
  simp [read?, htake, hdrop, hne]

theorem read?_point {ds fs : List Char} (hne : ds ≠ []) (hds : ∀ c ∈ ds, c.isDigit)
    (hfs : ∀ c ∈ fs, c.isDigit) :
    read? (ds ++ '.' :: fs) = some ⟨Nat.ofDigitChars 10 (ds ++ fs) 0, -fs.length⟩ := by
  have hpoint : ¬ Char.isDigit '.' := by decide
  have htake : (ds ++ '.' :: fs).takeWhile Char.isDigit = ds := by
    rw [List.takeWhile_append_of_pos hds, List.takeWhile_cons_of_neg hpoint, List.append_nil]
  have hdrop : (ds ++ '.' :: fs).dropWhile Char.isDigit = '.' :: fs := by
    rw [List.dropWhile_append_of_pos hds, List.dropWhile_cons_of_neg hpoint]
  have htake' : fs.takeWhile Char.isDigit = fs := List.takeWhile_eq_self_iff.2 hfs
  have hdrop' : fs.dropWhile Char.isDigit = [] := List.dropWhile_eq_nil_iff.2 hfs
  simp [read?, htake, hdrop, htake', hdrop', hne]

theorem isDigit_of_mem_digits {n : Nat} {c : Char} (h : c ∈ Nat.toDigits 10 n) : c.isDigit :=
  Nat.isDigit_of_mem_toDigits (by norm_num) (by norm_num) h

theorem isDigit_of_mem_zeros {n : Nat} {c : Char} (h : c ∈ List.replicate n '0') : c.isDigit := by
  rw [List.eq_of_mem_replicate h]
  rfl

theorem toChars_of_nonneg {d : Decimal} (h : 0 ≤ d.exponent) :
    d.toChars = Nat.toDigits 10 d.coefficient ++ List.replicate d.exponent.toNat '0' := by
  have hplaces : (-d.exponent).toNat = 0 := by omega
  rw [toChars, hplaces]
  exact if_pos rfl

/-- A decimal with places is written with a point before the last of its digits. -/
theorem exists_toChars_of_neg {d : Decimal} (h : d.exponent < 0) :
    ∃ ds fs, d.toChars = ds ++ '.' :: fs ∧ ds ≠ [] ∧ (∀ c ∈ ds ++ fs, c.isDigit) ∧
      -(fs.length : Int) = d.exponent ∧ Nat.ofDigitChars 10 (ds ++ fs) 0 = d.coefficient := by
  set places := (-d.exponent).toNat with hplaces
  set digits := Nat.toDigits 10 d.coefficient with hdigits
  set padded := List.replicate (places + 1 - digits.length) '0' ++ digits with hpadded
  have hlength : places + 1 ≤ padded.length := by
    rw [hpadded, List.length_append, List.length_replicate]
    omega
  refine ⟨padded.take (padded.length - places), padded.drop (padded.length - places), ?_, ?_, ?_,
    ?_, ?_⟩
  · rw [toChars, ← hplaces]
    exact if_neg (by omega)
  · refine List.ne_nil_of_length_pos ?_
    rw [List.length_take]
    omega
  · intro c hc
    rw [List.take_append_drop, hpadded, List.mem_append] at hc
    exact hc.elim isDigit_of_mem_zeros isDigit_of_mem_digits
  · rw [List.length_drop]
    omega
  · rw [List.take_append_drop, hpadded, Nat.ofDigitChars_append, Nat.ofDigitChars_replicate_zero,
      Nat.mul_zero, hdigits, Nat.ofDigitChars_ten_toDigits]

/-- The text of a decimal starts with a digit, and has digits and a point behind it. -/
theorem exists_toChars_eq_cons (d : Decimal) :
    ∃ c r, d.toChars = c :: r ∧ c.isDigit ∧ ∀ x ∈ r, x.isDigit ∨ x = '.' := by
  rcases le_or_gt 0 d.exponent with h | h
  · obtain ⟨c, r, hcr⟩ :=
      List.exists_cons_of_ne_nil (Nat.toDigits_ne_nil (n := d.coefficient) (b := 10))
    have hdigits : ∀ x ∈ c :: r, x.isDigit := fun x hx => isDigit_of_mem_digits (hcr ▸ hx)
    refine ⟨c, r ++ List.replicate d.exponent.toNat '0', ?_, hdigits c List.mem_cons_self, ?_⟩
    · rw [toChars_of_nonneg h, hcr, List.cons_append]
    · intro x hx
      rcases List.mem_append.1 hx with hx | hx
      · exact .inl (hdigits x (List.mem_cons_of_mem c hx))
      · exact .inl (isDigit_of_mem_zeros hx)
  · obtain ⟨ds, fs, htext, hne, hdigits, -, -⟩ := exists_toChars_of_neg h
    obtain ⟨c, r, rfl⟩ := List.exists_cons_of_ne_nil hne
    refine ⟨c, r ++ '.' :: fs, htext, hdigits c List.mem_cons_self, ?_⟩
    intro x hx
    simp only [List.mem_append, List.mem_cons] at hx
    rcases hx with hx | rfl | hx
    · exact .inl (hdigits x (List.mem_append_left fs (List.mem_cons_of_mem c hx)))
    · exact .inr rfl
    · exact .inl (hdigits x (List.mem_append_right (c :: r) hx))

theorem toFloat_zero (negative : Bool) (e : Int) :
    toFloat negative ⟨0, e⟩ = ofRatio negative 0 1 := by
  simp [toFloat]

theorem toFloat_mul_ten_pow (negative : Bool) (n e : Nat) :
    toFloat negative ⟨n * 10 ^ e, 0⟩ = toFloat negative ⟨n, e⟩ := by
  rcases n.eq_zero_or_pos with rfl | hn
  · rw [Nat.zero_mul, toFloat_zero, toFloat_zero]
  · have hcount := digitCount_mul_ten_pow hn e
    have hne : n * 10 ^ e ≠ 0 := (Nat.mul_pos hn (Nat.pow_pos (by norm_num))).ne'
    simp [toFloat, hcount, hne, hn.ne']

/-- The text of a decimal is read as a decimal of the same value. -/
theorem read?_toChars (d : Decimal) :
    ∃ d', read? d.toChars = some d' ∧ ∀ negative, d'.toFloat negative = d.toFloat negative := by
  rcases le_or_gt 0 d.exponent with h | h
  · obtain ⟨n, e⟩ := d
    obtain ⟨e, rfl⟩ := Int.eq_ofNat_of_zero_le h
    refine ⟨⟨n * 10 ^ e, 0⟩, ?_, fun negative => toFloat_mul_ten_pow negative n e⟩
    have hdigits : ∀ c ∈ Nat.toDigits 10 n ++ List.replicate e '0', c.isDigit := fun c hc =>
      (List.mem_append.1 hc).elim isDigit_of_mem_digits isDigit_of_mem_zeros
    rw [toChars_of_nonneg h]
    show read? (Nat.toDigits 10 n ++ List.replicate e '0') = _
    rw [read?_digits (List.append_ne_nil_of_left_ne_nil Nat.toDigits_ne_nil _) hdigits,
      Nat.ofDigitChars_append, Nat.ofDigitChars_ten_toDigits, Nat.ofDigitChars_replicate_zero,
      Nat.mul_comm]
  · obtain ⟨ds, fs, htext, hne, hdigits, hexponent, hcoefficient⟩ := exists_toChars_of_neg h
    refine ⟨d, ?_, fun _ => rfl⟩
    rw [htext, read?_point hne (fun c hc => hdigits c (List.mem_append_left fs hc))
      (fun c hc => hdigits c (List.mem_append_right ds hc)), hexponent, hcoefficient]

/-! ### The text of a double -/

theorem toList_text (hb : b < infinityBits) :
    (text (ofSignBits false b)).toList = (shortest (magnitudeOfBits b)).toChars := by
  have hfinite : (ofSignBits false b).isFinite := (isFinite_ofSignBits_iff hb.le).2 hb
  rw [text, isNaN_of_isFinite hfinite, isInf_of_isFinite hfinite, isNegative_ofSignBits hb.le,
    magnitude_ofSignBits hb.le]
  exact String.toList_ofList

/-- The text of a finite double that was read from a decimal is read as that double. It starts with
a digit, and has digits and a point behind it. -/
theorem exists_read?_text {d : Decimal} (h : (d.toFloat false).isFinite) :
    ∃ c r d', (text (d.toFloat false)).toList = c :: r ∧ c.isDigit ∧
      (∀ x ∈ r, x.isDigit ∨ x = '.') ∧ read? (c :: r) = some d' ∧
      d'.toFloat false = d.toFloat false := by
  obtain ⟨b, hb, hd⟩ := exists_toFloat_eq false d
  rw [hd] at h ⊢
  have hb : b < infinityBits := (isFinite_ofSignBits_iff hb).1 h
  obtain ⟨d', hread, hvalue⟩ := read?_toChars (shortest (magnitudeOfBits b))
  obtain ⟨c, r, hcr, hc, hr⟩ := exists_toChars_eq_cons (shortest (magnitudeOfBits b))
  refine ⟨c, r, d', ?_, hc, hr, hcr ▸ hread, (hvalue false).trans (toFloat_shortest hb)⟩
  rw [toList_text hb, hcr]

end Decimal

end CharacterSheet
