import CharacterSheet.Proofs.Binary64.Levels

/-!
# Sums that stay within bounds

A sum goes past a double only if the exact sum does. What is at most a multiple of a power of two
can therefore be added up without an overflow for as long as the multiples are doubles.

* `IsWithin` — a double is finite, and not further from zero than some number of units;
* `exists_magnitudeOfBits_eq` — small multiples of a power of two are magnitudes of doubles;
* `magnitude_add_le_double` — adding at most as much again at most doubles a number;
* `IsWithin.add` — one more summand, within the next multiple;
* `FitUnder`, `FitUnder.within_add` — small numbers, few enough that adding them up is safe.
-/

namespace CharacterSheet.Binary64

variable {m n k b bound : Nat} {x y : Float}

/-- A double is finite and at most a number of units away from zero. -/
def IsWithin (bound : Nat) (x : Float) : Prop := x.isFinite ∧ magnitude x ≤ bound

theorem IsWithin.mono (h : IsWithin m x) (hmn : m ≤ n) : IsWithin n x := ⟨h.1, h.2.trans hmn⟩

theorem magnitude_zero : magnitude 0 = 0 := by decide

theorem isWithin_zero : IsWithin bound 0 := ⟨by decide, magnitude_zero ▸ Nat.zero_le bound⟩

theorem natAbs_scaled (x : Float) : (scaled x).natAbs = magnitude x := by
  unfold scaled
  split <;> simp

/-- A sum whose exact value does not go past a double does not go past it either. -/
theorem isWithin_add (hx : x.isFinite) (hy : y.isFinite) (hb : b < infinityBits)
    (hsum : magnitude x + magnitude y ≤ magnitudeOfBits b) :
    IsWithin (magnitudeOfBits b) (x + y) := by
  obtain ⟨negative, heq, -⟩ := exists_add_eq hx hy
  have hexact : (scaled x + scaled y).natAbs ≤ magnitudeOfBits b := by
    have := natAbs_scaled x
    have := natAbs_scaled y
    omega
  have hbits : min (roundedBits (scaled x + scaled y).natAbs) infinityBits ≤ b := by
    rw [← roundedBits_magnitudeOfBits hb]
    exact min_le_min_right _ (roundedBits_mono hexact)
  rw [heq]
  constructor
  · exact (isFinite_ofSignBits_iff (min_le_right _ _)).2 (hbits.trans_lt hb)
  · rw [magnitude_ofSignBits (min_le_right _ _)]
    exact magnitudeOfBits_strictMono.monotone hbits

/-- A power of two, taken less than `2 ^ 53` times, is the magnitude of a double. -/
theorem exists_magnitudeOfBits_eq (hm : m < 2 ^ 53) (k : Nat) :
    ∃ b, magnitudeOfBits b = m * 2 ^ k := by
  -- doubling the multiple lowers the power, until the significand is of full width
  induction k generalizing m with
  | zero => exact ⟨_, magnitudeOfBits_of_parts hm (.inl rfl)⟩
  | succ k ih =>
    rcases Nat.lt_or_ge m (2 ^ 52) with hlt | hge
    · obtain ⟨b, hb⟩ := ih (m := 2 * m) (by omega)
      exact ⟨b, by rw [hb, Nat.pow_succ']; ring⟩
    · exact ⟨_, magnitudeOfBits_of_parts hm (.inr hge)⟩

/-- A sum is at most double its larger part, even where it leaves the range of doubles. -/
theorem magnitude_add_le_double (hx : x.isFinite) (hy : y.isFinite)
    (h : magnitude y ≤ magnitude x) : magnitude (x + y) ≤ 2 * magnitude x := by
  have hsignificand : significand x < 2 ^ 53 := by
    have hfraction : fractionField x < 2 ^ 52 := Nat.mod_lt _ (Nat.two_pow_pos 52)
    unfold significand
    rw [leadingOne_eq]
    split <;> omega
  obtain ⟨b, hb⟩ := exists_magnitudeOfBits_eq hsignificand (unitExponent x + 1)
  have hdouble : magnitudeOfBits b = 2 * magnitude x := by
    rw [hb, magnitude, Nat.pow_succ, Nat.pow_eq]
    ring
  have hexact : (scaled x + scaled y).natAbs ≤ magnitudeOfBits b := by
    have := natAbs_scaled x
    have := natAbs_scaled y
    omega
  obtain ⟨negative, heq, -⟩ := exists_add_eq hx hy
  rw [heq, magnitude_ofSignBits (min_le_right _ _), ← hdouble]
  refine magnitudeOfBits_strictMono.monotone ?_
  rcases Nat.lt_or_ge b infinityBits with hlt | hge
  · rw [← roundedBits_magnitudeOfBits hlt]
    exact min_le_min_right _ (roundedBits_mono hexact)
  · exact (min_le_right _ _).trans hge

theorem magnitudeOfBits_infinityBits : magnitudeOfBits infinityBits = 2 ^ 1024 * unity := by
  decide +kernel

/-- One more summand that is at most a power of two. -/
theorem IsWithin.add (hx : IsWithin (n * (2 ^ k * unity)) x) (hy : IsWithin (2 ^ k * unity) y)
    (hn : n + 1 < 2 ^ 53) (hlt : (n + 1) * 2 ^ k < 2 ^ 1024) :
    IsWithin ((n + 1) * (2 ^ k * unity)) (x + y) := by
  obtain ⟨u, -, hu⟩ := exists_unity_eq
  obtain ⟨b, hb⟩ := exists_magnitudeOfBits_eq hn (k + u)
  rw [Nat.pow_add, ← hu] at hb
  have hfinite : b < infinityBits := by
    refine magnitudeOfBits_strictMono.lt_iff_lt.1 ?_
    rw [hb, magnitudeOfBits_infinityBits, ← Nat.mul_assoc]
    exact Nat.mul_lt_mul_of_pos_right hlt (hu ▸ Nat.two_pow_pos u)
  rw [← hb]
  refine isWithin_add hx.1 hy.1 hfinite ?_
  rw [hb, Nat.succ_mul]
  exact Nat.add_le_add hx.2 hy.2

/-! ### Many summands -/

/-- Each of some numbers is at most `2 ^ k` away from zero, and they are too few to reach the end of
the doubles together. -/
structure FitUnder (k : Nat) (numbers : List Float) : Prop where
  length_lt : numbers.length < 2 ^ 53
  total_lt : numbers.length * 2 ^ k < 2 ^ 1024
  magnitude_le : ∀ a ∈ numbers, magnitude a ≤ 2 ^ k * unity

/-- A double is finite and at most `2 ^ k` away from zero for each of some numbers. -/
def WithinTotal (k : Nat) (numbers : List Float) (x : Float) : Prop :=
  IsWithin (numbers.length * (2 ^ k * unity)) x

variable {numbers more : List Float} {a : Float}

theorem FitUnder.of_append (h : FitUnder k (numbers ++ more)) : FitUnder k numbers where
  length_lt := by
    have := h.length_lt
    rw [List.length_append] at this
    omega
  total_lt := by
    refine (Nat.mul_le_mul_right _ ?_).trans_lt h.total_lt
    rw [List.length_append]
    exact Nat.le_add_right _ _
  magnitude_le b hb := h.magnitude_le b (List.mem_append_left _ hb)

theorem WithinTotal.append (h : WithinTotal k numbers x) (more : List Float) :
    WithinTotal k (numbers ++ more) x := by
  refine h.mono (Nat.mul_le_mul_right _ ?_)
  rw [List.length_append]
  exact Nat.le_add_right _ _

theorem FitUnder.isWithin (h : FitUnder k numbers) (ha : a ∈ numbers) (hfinite : a.isFinite) :
    IsWithin (2 ^ k * unity) a := ⟨hfinite, h.magnitude_le a ha⟩

theorem FitUnder.within_last (h : FitUnder k (numbers ++ [a])) (hfinite : a.isFinite) :
    WithinTotal k (numbers ++ [a]) a := by
  refine (h.isWithin (List.mem_append_right _ List.mem_cons_self) hfinite).mono ?_
  rw [List.length_append]
  exact Nat.le_mul_of_pos_left _ (Nat.succ_pos _)

theorem FitUnder.within_add (h : FitUnder k (numbers ++ [a])) (hfinite : a.isFinite)
    (hx : WithinTotal k numbers x) : WithinTotal k (numbers ++ [a]) (x + a) := by
  have hlength := h.length_lt
  have htotal := h.total_lt
  have hlast := h.isWithin (List.mem_append_right _ List.mem_cons_self) hfinite
  rw [List.length_append] at hlength htotal
  rw [WithinTotal, List.length_append]
  exact hx.add hlast hlength htotal

end CharacterSheet.Binary64
