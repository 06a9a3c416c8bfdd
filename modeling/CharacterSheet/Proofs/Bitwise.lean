import CharacterSheet.Proofs.Evaluation
import CharacterSheet.Proofs.Binary64.Whole

/-!
# The bitwise operators

`|`, `&`, `^` and `~` take whole numbers up to `2 ^ 53` in magnitude, and work on them in two's
complement. Each result is rounded to a double once. Only an operand that is `2 ^ 53` itself makes
a result that is no double.

* `IsOperand`, `wholeOperand_eq_ok`, `wholeOperand_eq_error` — the operands, as integers;
* `onWords_eq` — an operation on words of 64 bits is the operation on integers, bit by bit;
* `Expr.GivesInteger` — a node gives an integer, rounded to the nearest double;
* `Expr.value_bitwise` — the values of the bitwise operators.
-/

namespace CharacterSheet

open Binary64

variable {bindings : Bindings} {symbol : String} {x y : Float} {a b n : Int} {k : Nat}

/-! ### Operands -/

/-- A double is a whole number that a bitwise operator accepts. -/
structure IsOperand (x : Float) (n : Int) : Prop where
  toRat_eq : toRat x = n
  natAbs_le : n.natAbs ≤ 2 ^ 53

theorem wholeOperand_eq_ok (hx : x.isFinite) (h : IsOperand x n) :
    wholeOperand symbol x = .ok n := by
  rw [wholeOperand, toInt?_eq_some_iff.2 ⟨hx, h.toRat_eq⟩]
  exact if_pos h.natAbs_le

theorem wholeOperand_eq_error (h : ∀ n, ¬IsOperand x n) :
    wholeOperand symbol x = .error (.nonIntegral symbol) := by
  unfold wholeOperand
  split
  · next n hn => exact if_neg fun hle => h n ⟨(toInt?_eq_some_iff.1 hn).2, hle⟩
  · rfl

namespace BinaryOp

variable {op : BinaryOp} {f : Bool → Bool → Bool}

theorem wholeOperands_eq_ok (hx : x.isFinite) (hy : y.isFinite) (ha : IsOperand x a)
    (hb : IsOperand y b) : op.wholeOperands x y = .ok (a, b) := by
  rw [wholeOperands, wholeOperand_eq_ok hx ha, wholeOperand_eq_ok hy hb]
  rfl

theorem wholeOperands_eq_error (hx : x.isFinite)
    (h : (∀ a, ¬IsOperand x a) ∨ ∀ b, ¬IsOperand y b) :
    op.wholeOperands x y = .error (.nonIntegral op.symbol) := by
  unfold wholeOperands
  by_cases ha : ∃ a, IsOperand x a
  · obtain ⟨a, ha⟩ := ha
    rw [wholeOperand_eq_ok hx ha,
      wholeOperand_eq_error (h.resolve_left fun hnone => hnone a ha)]
    rfl
  · rw [wholeOperand_eq_error (not_exists.1 ha)]
    rfl

end BinaryOp

/-! ### Words -/

/-- A word holds the bits of an integer in two's complement. -/
theorem getLsbD_ofInt {w i : Nat} (n : Int) (hi : i < w) :
    (BitVec.ofInt w n).getLsbD i = n.testBit i := by
  cases n with
  | ofNat m =>
    show (BitVec.ofNat w m).getLsbD i = m.testBit i
    rw [BitVec.getLsbD_ofNat, decide_eq_true hi, Bool.true_and]
  | negSucc m =>
    rw [BitVec.ofInt_negSucc_eq_not_ofNat, BitVec.getLsbD_not, BitVec.getLsbD_ofNat,
      decide_eq_true hi, Bool.true_and, Bool.true_and]
    rfl

/-- An operation on the bits of two words of a width keeps to that width. -/
theorem natBitwise_mem {f : Bool → Bool → Bool} {m m' : Nat} (hm : m < 2 ^ k) (hm' : m' < 2 ^ k) :
    -2 ^ k ≤ Int.natBitwise f m m' ∧ Int.natBitwise f m m' < 2 ^ k := by
  have hpow : ((2 ^ k : Nat) : Int) = 2 ^ k := Nat.cast_pow 2 k
  have hlt (g : Bool → Bool → Bool) : Nat.bitwise g m m' < 2 ^ k := Nat.bitwise_lt_two_pow hm hm'
  unfold Int.natBitwise
  cases f false false
  · have := hlt f
    simp only [cond_false]
    omega
  · have := hlt fun x y => !f x y
    simp only [cond_true]
    omega

theorem bitwise_mem (f : Bool → Bool → Bool) (ha : -2 ^ k ≤ a ∧ a < 2 ^ k)
    (hb : -2 ^ k ≤ b ∧ b < 2 ^ k) : -2 ^ k ≤ Int.bitwise f a b ∧ Int.bitwise f a b < 2 ^ k := by
  have hpow : ((2 ^ k : Nat) : Int) = 2 ^ k := Nat.cast_pow 2 k
  -- a negative integer is held by the number of which its bits are the complement
  have hbits {n : Int} (hn : -2 ^ k ≤ n ∧ n < 2 ^ k) :
      (∃ m < 2 ^ k, n = Int.ofNat m) ∨ ∃ m < 2 ^ k, n = Int.negSucc m := by
    rcases n with m | m
    · exact .inl ⟨m, by simp only [Int.ofNat_eq_natCast] at hn; omega, rfl⟩
    · exact .inr ⟨m, by omega, rfl⟩
  rcases hbits ha with ⟨m, hm, rfl⟩ | ⟨m, hm, rfl⟩ <;>
    rcases hbits hb with ⟨m', hm', rfl⟩ | ⟨m', hm', rfl⟩
  · exact natBitwise_mem (f := f) hm hm'
  · exact natBitwise_mem (f := fun x y => f x !y) hm hm'
  · exact natBitwise_mem (f := fun x y => f (!x) y) hm hm'
  · exact natBitwise_mem (f := fun x y => f (!x) !y) hm hm'

namespace BinaryOp

variable {op : BinaryOp} {f : Bool → Bool → Bool}

/-- The bitwise operators on single bits. -/
def onBits? : BinaryOp → Option (Bool → Bool → Bool)
  | bitOr => some or
  | bitAnd => some and
  | bitXor => some xor
  | _ => none

/-- Both operands fit into a word, and so does the integer that their bits are joined to. -/
theorem toInt_ofInt_bitwise (f : Bool → Bool → Bool) {g : BitVec 64 → BitVec 64 → BitVec 64}
    (hg : ∀ u v i, i < 64 → (g u v).getLsbD i = f (u.getLsbD i) (v.getLsbD i))
    (ha : a.natAbs ≤ 2 ^ 53) (hb : b.natAbs ≤ 2 ^ 53) :
    (g (BitVec.ofInt 64 a) (BitVec.ofInt 64 b)).toInt = Int.bitwise f a b := by
  have hword : g (BitVec.ofInt 64 a) (BitVec.ofInt 64 b) = BitVec.ofInt 64 (Int.bitwise f a b) := by
    refine BitVec.eq_of_getLsbD_eq fun i hi => ?_
    rw [hg _ _ i hi, getLsbD_ofInt _ hi, getLsbD_ofInt _ hi, getLsbD_ofInt _ hi,
      Int.testBit_bitwise]
  obtain ⟨hlow, hhigh⟩ := bitwise_mem (k := 63) f (a := a) (b := b) (by omega) (by omega)
  rw [hword, BitVec.toInt_ofInt_eq_self (by norm_num) hlow hhigh]

theorem apply_eq_ok (hf : op.onBits? = some f) (hx : x.isFinite) (hy : y.isFinite)
    (ha : IsOperand x a) (hb : IsOperand y b) :
    op.apply x y = .ok (ofInt (Int.bitwise f a b)) := by
  have hwords {g : BitVec 64 → BitVec 64 → BitVec 64}
      (hg : ∀ u v i, i < 64 → (g u v).getLsbD i = f (u.getLsbD i) (v.getLsbD i)) :
      op.onWords g x y = .ok (ofInt (Int.bitwise f a b)) := by
    rw [← toInt_ofInt_bitwise f hg ha.natAbs_le hb.natAbs_le, onWords,
      wholeOperands_eq_ok hx hy ha hb]
    rfl
  cases op <;> cases hf
  · exact hwords fun u v i _ => BitVec.getLsbD_or
  · exact hwords fun u v i _ => BitVec.getLsbD_and
  · exact hwords fun u v i _ => BitVec.getLsbD_xor

theorem apply_eq_error (hf : op.onBits? = some f) (hx : x.isFinite)
    (h : (∀ a, ¬IsOperand x a) ∨ ∀ b, ¬IsOperand y b) :
    op.apply x y = .error (.nonIntegral op.symbol) := by
  have hwords (g : BitVec 64 → BitVec 64 → BitVec 64) :
      op.onWords g x y = .error (.nonIntegral op.symbol) := by
    rw [onWords, wholeOperands_eq_error hx h]
    rfl
  cases op <;> cases hf <;> exact hwords _

end BinaryOp

/-! ### Results -/

/-- The bits of two operands are joined to an integer of one bit more at most. -/
theorem natAbs_bitwise_le (f : Bool → Bool → Bool) (ha : a.natAbs ≤ 2 ^ 53)
    (hb : b.natAbs ≤ 2 ^ 53) : (Int.bitwise f a b).natAbs ≤ 2 ^ 54 := by
  obtain ⟨hlow, hhigh⟩ := bitwise_mem (k := 54) f (a := a) (b := b) (by omega) (by omega)
  omega

theorem natAbs_bitwise_le_of_ne (f : Bool → Bool → Bool) (ha : a.natAbs ≤ 2 ^ 53)
    (hb : b.natAbs ≤ 2 ^ 53) (hne : a ≠ 2 ^ 53 ∧ b ≠ 2 ^ 53) :
    (Int.bitwise f a b).natAbs ≤ 2 ^ 53 := by
  obtain ⟨hlow, hhigh⟩ := bitwise_mem (k := 53) f (a := a) (b := b) (by omega) (by omega)
  omega

theorem ldiff_le (m m' : Nat) : Nat.ldiff m m' ≤ m := by
  have hand : m &&& Nat.ldiff m m' = Nat.ldiff m m' := by
    refine Nat.eq_of_testBit_eq fun i => ?_
    rw [Nat.testBit_and, Nat.testBit_ldiff, ← Bool.and_assoc, Bool.and_self]
  exact hand ▸ Nat.and_le_left

/-- The common bits of two operands are those of an operand again. -/
theorem natAbs_land_le (ha : a.natAbs ≤ 2 ^ 53) (hb : b.natAbs ≤ 2 ^ 53) :
    (Int.bitwise and a b).natAbs ≤ 2 ^ 53 := by
  by_cases hneg : a < 0 ∧ b < 0
  · exact natAbs_bitwise_le_of_ne and ha hb (by omega)
  · rw [Int.bitwise_and]
    rcases a with m | m <;> rcases b with m' | m'
    · exact Nat.and_le_left.trans ha
    · exact (ldiff_le m m').trans ha
    · exact (ldiff_le m' m).trans hb
    · exact absurd ⟨Int.negSucc_lt_zero m, Int.negSucc_lt_zero m'⟩ hneg

/-- A node has a value, which is the double nearest to an integer. It is the integer itself unless
that is odd and past `2 ^ 53`. -/
structure Expr.GivesInteger (bindings : Bindings) (node : Expr) (n : Int) (z : Float) : Prop where
  value_eq : node.value bindings = .ok z
  nearest : IsNearest n z
  toRat_eq_iff : toRat z = n ↔ n.natAbs ≤ 2 ^ 53 ∨ Even n

namespace Expr

theorem value_unary (op : UnaryOp) {operand : Expr} (hx : operand.value bindings = .ok x) :
    (unary op operand).value bindings = settle (unary op operand) (op.apply x) := by
  rw [value, hx]
  rfl

theorem value_binary (op : BinaryOp) {lhs rhs : Expr} (hx : lhs.value bindings = .ok x)
    (hy : rhs.value bindings = .ok y) :
    (binary op lhs rhs).value bindings = settle (binary op lhs rhs) (op.apply x y) := by
  rw [value, hx, hy]
  rfl

theorem givesInteger_of_value {node : Expr} (hn : n.natAbs ≤ 2 ^ 54)
    (h : node.value bindings = settle node (.ok (ofInt n))) :
    GivesInteger bindings node n (ofInt n) := by
  have hnearest : IsNearest n (ofInt n) := isNearest_ofInt (hn.trans (by norm_num))
  exact ⟨h.trans (if_pos hnearest.isFinite), hnearest, toRat_ofInt_eq_iff hn⟩

/-- The bitwise operators give the integer that two's complement gives, rounded to the nearest
double, and it is exact unless an operand of `|`, `^` or `~` is `2 ^ 53`. Operands with a fractional
part, and those past `2 ^ 53`, are refused. -/
theorem value_bitwise (bindings : Bindings) :
    (∀ {op f lhs rhs x y}, BinaryOp.onBits? op = some f → lhs.value bindings = .ok x →
      rhs.value bindings = .ok y →
        (∀ {a b}, IsOperand x a → IsOperand y b →
          ∃ z, GivesInteger bindings (binary op lhs rhs) (Int.bitwise f a b) z ∧
            (op = .bitAnd ∨ a ≠ 2 ^ 53 ∧ b ≠ 2 ^ 53 → toRat z = Int.bitwise f a b)) ∧
        ((∀ a, ¬IsOperand x a) ∨ (∀ b, ¬IsOperand y b) →
          (binary op lhs rhs).value bindings =
            .error ⟨.nonIntegral op.symbol, binary op lhs rhs⟩)) ∧
    ∀ {operand x}, operand.value bindings = .ok x →
      (∀ {a}, IsOperand x a →
        ∃ z, GivesInteger bindings (unary .invert operand) (-a - 1) z ∧
          (a ≠ 2 ^ 53 → toRat z = (-a - 1 : Int))) ∧
      ((∀ a, ¬IsOperand x a) →
        (unary .invert operand).value bindings =
          .error ⟨.nonIntegral "~", unary .invert operand⟩) := by
  refine ⟨fun {op f lhs rhs x y} hf hx hy => ⟨fun {a b} ha hb => ?_, fun h => ?_⟩,
    fun {operand x} hx => ⟨fun {a} ha => ?_, fun h => ?_⟩⟩
  · have hfinite := isFinite_of_value hx
    have hfinite' := isFinite_of_value hy
    have hvalue := value_binary op hx hy
    rw [BinaryOp.apply_eq_ok hf hfinite hfinite' ha hb] at hvalue
    have hgives := givesInteger_of_value (natAbs_bitwise_le f ha.natAbs_le hb.natAbs_le) hvalue
    refine ⟨_, hgives, fun hexact => hgives.toRat_eq_iff.2 (.inl ?_)⟩
    rcases hexact with rfl | hne
    · cases hf
      exact natAbs_land_le ha.natAbs_le hb.natAbs_le
    · exact natAbs_bitwise_le_of_ne f ha.natAbs_le hb.natAbs_le hne
  · rw [value_binary op hx hy, BinaryOp.apply_eq_error hf (isFinite_of_value hx) h]
    rfl
  · have hvalue := value_unary .invert hx
    rw [UnaryOp.apply, wholeOperand_eq_ok (isFinite_of_value hx) ha] at hvalue
    have hle := ha.natAbs_le
    have hgives := givesInteger_of_value (n := -a - 1) (by omega) hvalue
    exact ⟨_, hgives, fun hne => hgives.toRat_eq_iff.2 (.inl (by omega))⟩
  · rw [value_unary _ hx, UnaryOp.apply, wholeOperand_eq_error h]
    rfl

theorem value_bitwise_six_three :
    (BinaryOp.onBits? .bitXor = some xor ∧ (number 6).value .none = .ok 6 ∧
      (number 3).value .none = .ok 3 ∧ IsOperand 6 6 ∧ IsOperand 3 3) ∧
    ∃ z, GivesInteger .none (binary .bitXor (number 6) (number 3)) (Int.bitwise xor 6 3) z ∧
      (BinaryOp.bitXor = .bitAnd ∨ (6 : Int) ≠ 2 ^ 53 ∧ (3 : Int) ≠ 2 ^ 53 →
        toRat z = Int.bitwise xor 6 3) := by
  have hsix : IsOperand 6 6 := ⟨toRat_eq_intCast_iff.2 (by decide +kernel), by decide⟩
  have hthree : IsOperand 3 3 := ⟨toRat_eq_intCast_iff.2 (by decide +kernel), by decide⟩
  have hvalue : (number 6).value .none = .ok 6 := by decide +kernel
  have hvalue' : (number 3).value .none = .ok 3 := by decide +kernel
  exact ⟨⟨rfl, hvalue, hvalue', hsix, hthree⟩,
    ((value_bitwise .none).1 rfl hvalue hvalue').1 hsix hthree⟩

/-- The complement of the largest operand has no double, so what it gives is rounded. -/
theorem invert_limit_rounds : IsOperand 9007199254740992 (2 ^ 53) ∧
    (unary .invert (number 9007199254740992)).value .none = .ok (-9007199254740992) ∧
    toRat (-9007199254740992) ≠ (-2 ^ 53 - 1 : Int) := by
  refine ⟨⟨toRat_eq_intCast_iff.2 (by decide +kernel), by decide⟩, by decide +kernel, ?_⟩
  rw [ne_eq, toRat_eq_intCast_iff]
  decide +kernel

end Expr

end CharacterSheet
