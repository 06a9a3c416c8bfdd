import CharacterSheet.Proofs.Bitwise
import CharacterSheet.Proofs.Binary64.Division
import CharacterSheet.Proofs.Binary64.Remainder

/-!
# Floor division and its remainder

`//` rounds the quotient to a double before it is rounded down, and `%` rounds the remainder after
it was moved to the side of the divisor. Each follows the rules of floor division up to its one
rounding, and both roundings can be seen: a quotient may be rounded up to a whole number, and a tiny
remainder on the other side of zero may be rounded to the divisor itself.

* `IsNearest.floor_eq` — rounding does not move a number past a whole one, but perhaps to it;
* `FloorRules` — the rules, for exact operands and rounded results;
* `Expr.floorRules_value` — the values of `//` and `%` follow them.
-/

namespace CharacterSheet

open Binary64

variable {bindings : Bindings} {x y d q r : Float} {a b c : ℚ} {n : Int}

/-! ### Rounding and whole numbers -/

namespace Binary64

/-- A double that is no whole number lies between two whole doubles. -/
theorem natAbs_floor_le (hx : x.isFinite) (hne : toRat x ≠ ⌊toRat x⌋) :
    (⌊toRat x⌋).natAbs ≤ 2 ^ 53 ∧ (⌊toRat x⌋ + 1).natAbs ≤ 2 ^ 53 := by
  rcases unity_dvd_or_lt hx with hdvd | hlt
  · have hdvd : (unity : Int) ∣ scaled x := by
      rwa [Int.natCast_dvd, natAbs_scaled]
    obtain ⟨n, hn⟩ := hdvd
    have hvalue : toRat x = n := toRat_eq_intCast_iff.2 (hn.trans (mul_comm _ _))
    rw [hvalue, Int.floor_intCast] at hne
    exact absurd rfl hne
  · have habs : |toRat x| < 2 ^ 53 := by
      have hcast : (magnitude x : ℚ) < (2 ^ 53 * unity : Nat) := Nat.cast_lt.2 hlt
      rw [Nat.cast_mul, Nat.cast_pow, Nat.cast_ofNat] at hcast
      rwa [abs_toRat, div_lt_iff₀ unity_pos_rat]
    obtain ⟨hlow, hhigh⟩ := abs_lt.1 habs
    have hfloor : -2 ^ 53 ≤ ⌊toRat x⌋ := Int.le_floor.2 (by push_cast; exact hlow.le)
    have hfloor' : ⌊toRat x⌋ < 2 ^ 53 := Int.floor_lt.2 (by push_cast; exact hhigh)
    omega

/-- A number that is not rounded to a whole one keeps its whole part. -/
theorem IsNearest.floor_eq (h : IsNearest c d) (hne : toRat d ≠ ⌊toRat d⌋) :
    ⌊c⌋ = ⌊toRat d⌋ := by
  obtain ⟨hlow, hhigh⟩ := natAbs_floor_le h.isFinite hne
  obtain ⟨hfinite, hvalue⟩ := toRat_ofInt (isMagnitude_mul_unity hlow)
  obtain ⟨hfinite', hvalue'⟩ := toRat_ofInt (isMagnitude_mul_unity hhigh)
  rw [Int.floor_eq_iff]
  constructor
  · by_contra hlt
    have hle := h.le_of_le hfinite (hvalue.symm ▸ (not_le.1 hlt).le)
    rw [hvalue] at hle
    exact hne (le_antisymm hle (Int.floor_le _))
  · by_contra hge
    have hle := h.ge_of_ge hfinite' (by rw [hvalue']; push_cast; exact not_lt.1 hge)
    rw [hvalue'] at hle
    push_cast at hle
    exact (Int.lt_floor_add_one (toRat d)).not_ge hle

theorem IsNearest.floor_eq_iff (h : IsNearest c d) : ⌊toRat d⌋ = ⌊c⌋ ↔
    toRat d ≠ ⌊toRat d⌋ ∨ toRat d ≤ c ∧ c < toRat d + 1 := by
  by_cases hwhole : toRat d = ⌊toRat d⌋
  · rw [eq_comm, Int.floor_eq_iff, ← hwhole]
    simp
  · exact iff_of_true (h.floor_eq hwhole).symm (.inl hwhole)

end Binary64

/-! ### The floor rules -/

/-- What `//` and `%` give for a dividend and a divisor. -/
structure FloorRules (a b : ℚ) (q r : Float) : Prop where
  quotient : ∃ d, IsNearest (a / b) d ∧ toRat q = ⌊toRat d⌋ ∧
    (toRat q = ⌊a / b⌋ ↔ toRat d ≠ ⌊toRat d⌋ ∨ toRat d ≤ a / b ∧ a / b < toRat d + 1)
  remainder : IsNearest (a - b * ⌊a / b⌋) r
  remainder_exact : 0 ≤ a * b → toRat r = a - b * ⌊a / b⌋
  sign_eq : toRat r = 0 ∨ 0 < toRat r * b
  abs_le : |toRat r| ≤ |b|
  abs_lt : toRat r ≠ b → |toRat r| < |b|

/-- The exact remainder is between zero and the divisor. -/
theorem floor_remainder_mem (hb : b ≠ 0) :
    0 < b ∧ 0 ≤ a - b * ⌊a / b⌋ ∧ a - b * ⌊a / b⌋ ≤ b ∨
      b < 0 ∧ b ≤ a - b * ⌊a / b⌋ ∧ a - b * ⌊a / b⌋ ≤ 0 := by
  have hfract : a - b * ⌊a / b⌋ = b * Int.fract (a / b) := by
    rw [Int.fract, mul_sub, mul_div_cancel₀ a hb]
  have hnonneg := Int.fract_nonneg (a / b)
  have hle := (Int.fract_lt_one (a / b)).le
  rw [hfract]
  rcases lt_or_gt_of_ne hb with hb | hb
  · exact .inr ⟨hb, le_mul_of_le_one_right hb.le hle, mul_nonpos_of_nonpos_of_nonneg hb.le hnonneg⟩
  · exact .inl ⟨hb, mul_nonneg hb.le hnonneg, mul_le_of_le_one_right hb.le hle⟩

theorem remainder_mem (hy : y.isFinite) (h0 : toRat y ≠ 0)
    (h : IsNearest (a - toRat y * ⌊a / toRat y⌋) r) :
    0 < toRat y ∧ 0 ≤ toRat r ∧ toRat r ≤ toRat y ∨
      toRat y < 0 ∧ toRat y ≤ toRat r ∧ toRat r ≤ 0 := by
  have hzero : toRat 0 = 0 := by
    have hscaled : scaled 0 = 0 := by decide
    rw [toRat, hscaled, Int.cast_zero, zero_div]
  have hfinite : (0 : Float).isFinite := by decide
  rcases floor_remainder_mem (a := a) h0 with ⟨hpos, hlow, hhigh⟩ | ⟨hneg, hlow, hhigh⟩
  · exact .inl ⟨hpos, hzero ▸ h.ge_of_ge hfinite (hzero.symm ▸ hlow), h.le_of_le hy hhigh⟩
  · exact .inr ⟨hneg, h.ge_of_ge hy hlow, hzero ▸ h.le_of_le hfinite (hzero.symm ▸ hhigh)⟩

/-- A number between zero and `b` has the sign of `b`, and is smaller unless it is `b`. -/
theorem sign_and_abs_of_mem {s : ℚ} (h : 0 < b ∧ 0 ≤ s ∧ s ≤ b ∨ b < 0 ∧ b ≤ s ∧ s ≤ 0) :
    (s = 0 ∨ 0 < s * b) ∧ |s| ≤ |b| ∧ (s ≠ b → |s| < |b|) := by
  rcases h with ⟨hb, hlow, hhigh⟩ | ⟨hb, hlow, hhigh⟩
  · rw [abs_of_nonneg hlow, abs_of_pos hb]
    refine ⟨?_, hhigh, hhigh.lt_of_ne⟩
    exact hlow.eq_or_lt.imp Eq.symm fun hs => mul_pos hs hb
  · rw [abs_of_nonpos hhigh, abs_of_neg hb]
    refine ⟨?_, neg_le_neg hlow, fun hne => neg_lt_neg (hlow.lt_of_ne' hne)⟩
    exact hhigh.eq_or_lt.imp id fun hs => mul_pos_of_neg_of_neg hs hb

namespace Expr

/-- Where both `//` and `%` have a value, the values follow the floor rules. -/
theorem floorRules_value {lhs rhs : Expr} (hx : lhs.value bindings = .ok x)
    (hy : rhs.value bindings = .ok y) (h0 : toRat y ≠ 0)
    (hq : (binary .floorDiv lhs rhs).value bindings = .ok q)
    (hr : (binary .mod lhs rhs).value bindings = .ok r) : FloorRules (toRat x) (toRat y) q r := by
  have hfinite := isFinite_of_value hx
  have hfinite' := isFinite_of_value hy
  have hne : (y == 0) = false := Bool.eq_false_iff.2 (mt (beq_zero_iff hfinite').1 h0)
  rw [value_binary _ hx hy, settle_eq_ok_iff] at hq hr
  simp only [BinaryOp.apply, hne, Bool.false_eq_true, if_false, Except.ok.injEq] at hq hr
  obtain ⟨rfl, hq⟩ := hq
  obtain ⟨rfl, hr⟩ := hr
  have hquotient : IsNearest (toRat x / toRat y) (x / y) := by
    refine isNearest_div hfinite hfinite' h0 ?_
    by_contra hinf
    rw [floor, roundBy, if_neg hinf] at hq
    exact hinf hq
  obtain ⟨hremainder, hexact⟩ := isNearest_floorMod hfinite hfinite' h0 hr
  have hfloor := (toRat_floor hquotient.isFinite).2
  obtain ⟨hsign, hle, hlt⟩ := sign_and_abs_of_mem (remainder_mem hfinite' h0 hremainder)
  refine ⟨⟨x / y, hquotient, hfloor, ?_⟩, hremainder, hexact, hsign, hle, hlt⟩
  rw [hfloor, Int.cast_inj]
  exact hquotient.floor_eq_iff

theorem floorRules_value_seven_five :
    ((number 7).value .none = .ok 7 ∧ (number (-5)).value .none = .ok (-5) ∧ toRat (-5) ≠ 0 ∧
      (binary .floorDiv (number 7) (number (-5))).value .none = .ok (-2) ∧
      (binary .mod (number 7) (number (-5))).value .none = .ok (-3)) ∧
    FloorRules (toRat 7) (toRat (-5)) (-2) (-3) := by
  have hx : (number 7).value .none = .ok 7 := by decide +kernel
  have hy : (number (-5)).value .none = .ok (-5) := by decide +kernel
  have h0 : toRat (-5) ≠ 0 := mt (beq_zero_iff (by decide)).2 (by decide)
  have hq : (binary .floorDiv (number 7) (number (-5))).value .none = .ok (-2) := by
    decide +kernel
  have hr : (binary .mod (number 7) (number (-5))).value .none = .ok (-3) := by decide +kernel
  exact ⟨⟨hx, hy, h0, hq, hr⟩, floorRules_value hx hy h0 hq hr⟩

/-- One tenth as a double is more than one tenth, and still goes ten times into one. A remainder
just below zero is rounded to the divisor. -/
theorem rounding_shows :
    ((binary .floorDiv (number 1) (number 0.1)).value .none = .ok 10 ∧
      (binary .mod (number 1) (number 0.1)).value .none = .ok 0.09999999999999995 ∧
      toRat 10 ≠ ⌊toRat 1 / toRat 0.1⌋) ∧
    ((binary .floorDiv (number (-1e-20)) (number 1)).value .none = .ok (-1) ∧
      (binary .mod (number (-1e-20)) (number 1)).value .none = .ok 1 ∧
      ¬|toRat 1| < |toRat 1|) := by
  have hten : toRat 10 = (10 : Int) := toRat_eq_intCast_iff.2 (by decide +kernel)
  refine ⟨⟨by decide +kernel, by decide +kernel, ?_⟩, by decide +kernel, by decide +kernel,
    lt_irrefl _⟩
  have hlt : toRat 1 / toRat 0.1 < 10 := by
    have hpos : (0 : ℚ) < scaled 0.1 := Int.cast_pos.2 (by decide +kernel)
    have hscaled : ((scaled 1 : Int) : ℚ) < (10 * scaled 0.1 : Int) :=
      Int.cast_lt.2 (by decide +kernel)
    rw [Int.cast_mul, Int.cast_ofNat] at hscaled
    rwa [toRat, toRat, div_div_div_cancel_right₀ unity_pos_rat.ne', div_lt_iff₀ hpos]
  rw [hten, ne_eq, Int.cast_inj]
  intro heq
  have hle := Int.floor_le (toRat 1 / toRat 0.1)
  rw [← heq] at hle
  exact hlt.not_ge hle

end Expr

end CharacterSheet
