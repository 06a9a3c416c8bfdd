import CharacterSheet.Proofs.Bitwise

/-!
# The shifts

`<<` multiplies by a power of two, and `>>` divides by one and rounds down. What they give is always
a double, so that nothing is rounded to one. The count of a shift is kept in 32 bits, and that of
`<<` has to be below the width of a word, even where there is nothing to shift.

* `FitsShifted`, `FitsShifted.lt_of_ne` — the shifts to the left that a word has room for;
* `CanShiftLeft`, `CanShiftRight` — the shifts that are made;
* `shiftLeftWord?_eq_some_iff`, `toInt_shiftRightWord` — shifted words are products and quotients;
* `apply_shiftLeft_eq_ok`, `apply_shiftRight_eq_ok` and their failures — what the operators give;
* `Expr.value_shift` — the values of the shifts, and the shifts that are refused.
-/

namespace CharacterSheet

open Binary64

variable {bindings : Bindings} {op : BinaryOp} {x y : Float} {a n : Int} {count : Nat}

/-! ### Room for a shift -/

/-- A count is not negative, and the shifted integer is one of 64 bits with a sign. -/
structure FitsShifted (a n : Int) : Prop where
  nonneg : 0 ≤ n
  le : -2 ^ 63 ≤ a * 2 ^ n.toNat
  lt : a * 2 ^ n.toNat < 2 ^ 63

/-- Only zero has room for a shift by the width of a word. -/
theorem FitsShifted.lt_of_ne (h : FitsShifted a n) (ha : a ≠ 0) : n < 64 := by
  obtain ⟨-, hle, hlt⟩ := h
  by_contra hge
  have habs : (a * 2 ^ n.toNat).natAbs = a.natAbs * 2 ^ n.toNat := by
    rw [Int.natAbs_mul, Int.natAbs_pow]
    rfl
  have hpow : 2 ^ 64 ≤ a.natAbs * 2 ^ n.toNat :=
    calc 2 ^ 64 ≤ 2 ^ n.toNat := Nat.pow_le_pow_right Nat.two_pos (by omega)
      _ ≤ a.natAbs * 2 ^ n.toNat := Nat.le_mul_of_pos_left _ (Int.natAbs_pos.2 ha)
  omega

/-- The shifts to the left that are made. For zero, which fits in any case, the count has a bound of
its own. -/
structure CanShiftLeft (a n : Int) : Prop extends FitsShifted a n where
  lt_of_eq_zero : a = 0 → n < 64

theorem CanShiftLeft.lt_width (h : CanShiftLeft a n) : n < 64 := by
  by_cases ha : a = 0
  · exact h.lt_of_eq_zero ha
  · exact h.toFitsShifted.lt_of_ne ha

/-- The counts of the shifts to the right that are made. -/
structure CanShiftRight (n : Int) : Prop where
  nonneg : 0 ≤ n
  lt : n < 2 ^ 32

/-! ### Words -/

/-- An integer is one of 64 bits with a sign. -/
def FitsWord (a : Int) : Prop := -2 ^ 63 ≤ a ∧ a < 2 ^ 63

theorem FitsWord.toInt_ofInt (h : FitsWord a) : (BitVec.ofInt 64 a).toInt = a :=
  BitVec.toInt_ofInt_eq_self (by decide) h.1 h.2

theorem fitsWord_toInt (word : BitVec 64) : FitsWord word.toInt :=
  ⟨BitVec.le_toInt word, BitVec.toInt_lt⟩

theorem IsOperand.fitsWord (h : IsOperand x a) : FitsWord a := by
  have hle := h.natAbs_le
  unfold FitsWord
  omega

theorem FitsShifted.fitsWord (h : FitsShifted a n) : FitsWord (a * 2 ^ n.toNat) := ⟨h.le, h.lt⟩

theorem ofInt_shiftLeft (a : Int) (count : Nat) :
    BitVec.ofInt 64 a <<< count = BitVec.ofInt 64 (a * 2 ^ count) := by
  have hpow : BitVec.ofInt 64 (2 ^ count) = BitVec.twoPow 64 count := by
    have hcast : (2 : Int) ^ count = (2 ^ count : Nat) := (Nat.cast_pow 2 count).symm
    rw [hcast, BitVec.ofInt_natCast]
    exact BitVec.eq_of_toNat_eq (by simp)
  rw [BitVec.shiftLeft_eq_mul_twoPow, BitVec.ofInt_mul, hpow]

/-- Shifting to the left keeps the low bits empty, also in a word that has lost its high ones. -/
theorem two_pow_dvd_toInt_ofInt (a : Int) (hcount : count < 64) :
    2 ^ count ∣ (BitVec.ofInt 64 (a * 2 ^ count)).toInt := by
  have hwidth : (2 : Int) ^ count ∣ (2 ^ 64 : Nat) := by
    rw [Nat.cast_pow]
    exact pow_dvd_pow 2 hcount.le
  rw [BitVec.toInt_ofInt, Int.bmod_eq_self_sub_mul_bdiv]
  exact dvd_sub (dvd_mul_left _ _) (hwidth.mul_right _)

/-- Shifting back restores an integer exactly if the word has room for the product. -/
theorem sshiftRight_shiftLeft_eq_iff (ha : FitsWord a) (hcount : count < 64) :
    (BitVec.ofInt 64 a <<< count).sshiftRight count = BitVec.ofInt 64 a ↔
      FitsWord (a * 2 ^ count) := by
  have hpow : ((2 ^ count : Nat) : Int) = 2 ^ count := Nat.cast_pow 2 count
  rw [ofInt_shiftLeft, ← BitVec.toInt_inj, BitVec.toInt_sshiftRight, ha.toInt_ofInt,
    Int.shiftRight_eq_div_pow, hpow]
  constructor
  · intro h
    have hproduct : (BitVec.ofInt 64 (a * 2 ^ count)).toInt = a * 2 ^ count := by
      rw [← Int.ediv_mul_cancel (two_pow_dvd_toInt_ofInt a hcount), h]
    exact hproduct ▸ fitsWord_toInt _
  · intro h
    rw [h.toInt_ofInt, Int.mul_ediv_cancel _ (pow_ne_zero count two_ne_zero)]

namespace BinaryOp

theorem shiftLeftWord?_eq_some_iff {word : BitVec 64} (ha : FitsWord a) :
    shiftLeftWord? (BitVec.ofInt 64 a) count = some word ↔
      CanShiftLeft a count ∧ word = BitVec.ofInt 64 (a * 2 ^ count) := by
  have hfits (hcount : count < 64) : FitsWord (a * 2 ^ count) ↔ CanShiftLeft a count :=
    ⟨fun h => ⟨⟨Int.natCast_nonneg count, h.1, h.2⟩, fun _ => Int.ofNat_lt.2 hcount⟩,
      fun h => h.fitsWord⟩
  unfold shiftLeftWord?
  by_cases hcount : count < 64
  · have hback := (sshiftRight_shiftLeft_eq_iff ha hcount).trans (hfits hcount)
    rw [if_pos hcount]
    dsimp only
    by_cases h : CanShiftLeft a count
    · rw [if_pos (hback.2 h), ofInt_shiftLeft, Option.some_inj, and_iff_right h, eq_comm]
    · rw [if_neg (mt hback.1 h)]
      exact iff_of_false nofun fun hproduct => h hproduct.1
  · rw [if_neg hcount]
    exact iff_of_false nofun fun h => hcount (Int.ofNat_lt.1 h.1.lt_width)

/-- A word that is shifted to the right holds the quotient by the power of two, rounded down. -/
theorem toInt_shiftRightWord (ha : FitsWord a) (count : Nat) :
    (shiftRightWord (BitVec.ofInt 64 a) count).toInt = a >>> count := by
  unfold shiftRightWord
  by_cases hcount : count < 64
  · rw [if_pos hcount, BitVec.toInt_sshiftRight, ha.toInt_ofInt]
  · have hle := ha.1
    have hlt := ha.2
    have hpow : (2 : Int) ^ 64 ≤ (2 ^ count : Nat) := by
      exact_mod_cast Nat.pow_le_pow_right Nat.two_pos (not_lt.1 hcount)
    rw [if_neg hcount, ha.toInt_ofInt, Int.shiftRight_eq_div_pow, eq_comm]
    split
    · have hsign : (-1 : BitVec 64).toInt = -1 := by decide
      rw [hsign, Int.ediv_eq_iff_of_pos (by omega)]
      omega
    · have hzero : (0 : BitVec 64).toInt = 0 := by decide
      rw [hzero]
      exact Int.ediv_eq_zero_of_lt (by omega) (by omega)

/-! ### The operators -/

section
variable (hx : x.isFinite) (hy : y.isFinite) (ha : IsOperand x a) (hn : IsOperand y n)
include hx hy ha hn

theorem shiftOperands_eq_ok (h : CanShiftRight n) : op.shiftOperands x y = .ok (a, n.toNat) := by
  rw [shiftOperands, wholeOperands_eq_ok hx hy ha hn]
  exact if_pos ⟨h.nonneg, h.lt⟩

theorem shiftOperands_eq_error (h : ¬CanShiftRight n) :
    op.shiftOperands x y = .error (.invalidShift op) := by
  rw [shiftOperands, wholeOperands_eq_ok hx hy ha hn]
  exact if_neg fun hcount => h ⟨hcount.1, hcount.2⟩

theorem apply_shiftLeft_eq_ok (h : CanShiftLeft a n) :
    apply shiftLeft x y = .ok (ofInt (a * 2 ^ n.toNat)) := by
  have hcount : CanShiftRight n := ⟨h.nonneg, h.lt_width.trans (by norm_num)⟩
  have hshift : shiftLeftWord? (BitVec.ofInt 64 a) n.toNat =
      some (BitVec.ofInt 64 (a * 2 ^ n.toNat)) :=
    (shiftLeftWord?_eq_some_iff ha.fitsWord).2 ⟨(Int.toNat_of_nonneg h.nonneg).symm ▸ h, rfl⟩
  simp only [apply, shiftOperands_eq_ok hx hy ha hn hcount, bind, Except.bind, hshift,
    h.fitsWord.toInt_ofInt]
  rfl

theorem apply_shiftLeft_eq_error (h : ¬CanShiftLeft a n) :
    apply shiftLeft x y = .error (.invalidShift shiftLeft) := by
  by_cases hcount : CanShiftRight n
  · have hshift : shiftLeftWord? (BitVec.ofInt 64 a) n.toNat = none := by
      refine Option.eq_none_iff_forall_ne_some.2 fun word hword => h ?_
      rw [← Int.toNat_of_nonneg hcount.nonneg]
      exact ((shiftLeftWord?_eq_some_iff ha.fitsWord).1 hword).1
    simp only [apply, shiftOperands_eq_ok hx hy ha hn hcount, bind, Except.bind, hshift]
    rfl
  · simp only [apply, shiftOperands_eq_error hx hy ha hn hcount]
    rfl

theorem apply_shiftRight_eq_ok (h : CanShiftRight n) :
    apply shiftRight x y = .ok (ofInt (a >>> n.toNat)) := by
  rw [← toInt_shiftRightWord ha.fitsWord]
  simp only [apply, shiftOperands_eq_ok hx hy ha hn h]
  rfl

theorem apply_shiftRight_eq_error (h : ¬CanShiftRight n) :
    apply shiftRight x y = .error (.invalidShift shiftRight) := by
  simp only [apply, shiftOperands_eq_error hx hy ha hn h]
  rfl

end

end BinaryOp

namespace Expr

/-- A node has an integer as its value. -/
def GivesExactly (bindings : Bindings) (node : Expr) (n : Int) : Prop :=
  ∃ z, node.value bindings = .ok z ∧ toRat z = n

theorem givesExactly_of_value {node : Expr} (hn : IsMagnitude (n.natAbs * unity))
    (h : node.value bindings = settle node (.ok (ofInt n))) : GivesExactly bindings node n := by
  obtain ⟨hfinite, hvalue⟩ := toRat_ofInt hn
  exact ⟨ofInt n, h.trans (if_pos hfinite), hvalue⟩

/-- A shift is refused. -/
def RefusesShift (bindings : Bindings) (op : BinaryOp) (lhs rhs : Expr) : Prop :=
  (binary op lhs rhs).value bindings = .error ⟨.invalidShift op, binary op lhs rhs⟩

/-- A shift to the left gives the product with a power of two wherever a word has room for it, save
for a zero that is shifted by the width or more. A shift to the right gives the quotient by a power
of two, rounded down, for every count of 32 bits. Any other shift is refused. -/
theorem value_shift {lhs rhs : Expr} (hx : lhs.value bindings = .ok x)
    (hy : rhs.value bindings = .ok y) (ha : IsOperand x a) (hn : IsOperand y n) :
    (CanShiftLeft a n →
        GivesExactly bindings (binary .shiftLeft lhs rhs) (a * 2 ^ n.toNat)) ∧
      (¬CanShiftLeft a n → RefusesShift bindings .shiftLeft lhs rhs) ∧
      (CanShiftRight n →
        GivesExactly bindings (binary .shiftRight lhs rhs) ⌊(a / 2 ^ n.toNat : ℚ)⌋) ∧
      (¬CanShiftRight n → RefusesShift bindings .shiftRight lhs rhs) := by
  have hfinite := isFinite_of_value hx
  have hfinite' := isFinite_of_value hy
  refine ⟨fun h => ?_, fun h => ?_, fun h => ?_, fun h => ?_⟩
  · refine givesExactly_of_value ?_ ((value_binary _ hx hy).trans ?_)
    · rw [Int.natAbs_mul, Int.natAbs_pow]
      exact isMagnitude_whole ha.natAbs_le (by have := h.lt_width; omega)
    · rw [BinaryOp.apply_shiftLeft_eq_ok hfinite hfinite' ha hn h]
  · rw [RefusesShift, value_binary _ hx hy,
      BinaryOp.apply_shiftLeft_eq_error hfinite hfinite' ha hn h]
    rfl
  · have hfloor : ⌊(a / 2 ^ n.toNat : ℚ)⌋ = a >>> n.toNat := by
      rw [Int.shiftRight_eq_div_pow, ← Rat.floor_intCast_div_natCast, Nat.cast_pow, Nat.cast_ofNat]
    refine givesExactly_of_value ?_ ((value_binary _ hx hy).trans ?_)
    · rw [hfloor, Int.shiftRight_eq_div_pow]
      exact isMagnitude_mul_unity ((Int.natAbs_ediv_le_natAbs _ _).trans ha.natAbs_le)
    · rw [BinaryOp.apply_shiftRight_eq_ok hfinite hfinite' ha hn h, hfloor]
  · rw [RefusesShift, value_binary _ hx hy,
      BinaryOp.apply_shiftRight_eq_error hfinite hfinite' ha hn h]
    rfl

theorem value_shift_seven_two :
    ((number (-7)).value .none = .ok (-7) ∧ (number 2).value .none = .ok 2 ∧
      IsOperand (-7) (-7) ∧ IsOperand 2 2) ∧
    GivesExactly .none (binary .shiftLeft (number (-7)) (number 2)) (-28) ∧
      GivesExactly .none (binary .shiftRight (number (-7)) (number 2)) (-2) := by
  have hseven : IsOperand (-7) (-7) := ⟨toRat_eq_intCast_iff.2 (by decide +kernel), by decide⟩
  have htwo : IsOperand 2 2 := ⟨toRat_eq_intCast_iff.2 (by decide +kernel), by decide⟩
  have hvalue : (number (-7)).value .none = .ok (-7) := by decide +kernel
  have hvalue' : (number 2).value .none = .ok 2 := by decide +kernel
  obtain ⟨hleft, -, hright, -⟩ := value_shift hvalue hvalue' hseven htwo
  have hfits : CanShiftLeft (-7) 2 := ⟨⟨by decide, by decide, by decide⟩, by decide⟩
  have hfloor : ⌊(((-7 : Int) : ℚ) / 2 ^ (2 : Int).toNat)⌋ = -2 := by
    have hcount : (2 : Int).toNat = 2 := rfl
    rw [Int.floor_eq_iff, hcount]
    norm_num
  exact ⟨⟨hvalue, hvalue', hseven, htwo⟩, hleft hfits, hfloor ▸ hright ⟨by decide, by decide⟩⟩

/-- Zero is not shifted to the left by the width of a word, although there is room for it, and one
is not shifted to the right by a count of 33 bits, although that would leave only the sign. -/
theorem shift_refused_in_range :
    (IsOperand 0 0 ∧ IsOperand 64 64 ∧ FitsShifted 0 64 ∧
      RefusesShift .none .shiftLeft (number 0) (number 64)) ∧
    (IsOperand 1 1 ∧ IsOperand 4294967296 (2 ^ 32) ∧
      RefusesShift .none .shiftRight (number 1) (number 4294967296)) := by
  refine ⟨⟨?_, ?_, ?_, by unfold RefusesShift; decide +kernel⟩,
    ?_, ?_, by unfold RefusesShift; decide +kernel⟩
  · exact ⟨toRat_eq_intCast_iff.2 (by decide +kernel), by decide⟩
  · exact ⟨toRat_eq_intCast_iff.2 (by decide +kernel), by decide⟩
  · exact ⟨by decide, by decide, by decide⟩
  · exact ⟨toRat_eq_intCast_iff.2 (by decide +kernel), by decide⟩
  · exact ⟨toRat_eq_intCast_iff.2 (by decide +kernel), by decide⟩

end Expr

end CharacterSheet
