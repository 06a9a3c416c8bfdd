import CharacterSheet.Proofs.FormulaText

/-!
# How large a formula can be

What is done with a formula after it was read goes through its tree, so the tree has to be bounded
by what the limits say of the text. Each node of the tree stands for a token of its own, and each
token takes at least a byte. A chain of operators on one level makes a tall tree without any
nesting, which is why the limit on the nesting bounds less than the height: the steps on the way to
a node that go into the operand of a sign, an exponent or an argument.

* `Expr.depth_le_size`, `Derivation.size_le` — heights, nodes and tokens;
* `length_le_byteLength` — tokens and bytes;
* `Branch`, `Expr.Leads` — the ways down from the root of a tree;
* `Derivation.nested_lt` — how many steps on a way the nesting bounds;
* `Formula.Bounded`, `Formula.bounded_of_parse` — the bounds of a formula that was read.
-/

namespace CharacterSheet

open Phrase

/-! ### Heights, nodes and tokens -/

namespace Expr

mutual

theorem depth_le_size : (e : Expr) → e.depth ≤ e.size
  | number _ | var _ => by rw [depth, size]
  | unary _ operand => by
    have ih := depth_le_size operand
    rw [depth, size]
    omega
  | binary _ lhs rhs => by
    have hlhs := depth_le_size lhs
    have hrhs := depth_le_size rhs
    rw [depth, size]
    omega
  | call _ args => by
    have ih := maxDepth_le_totalSize args
    rw [depth, size]
    omega

theorem maxDepth_le_totalSize : (es : List Expr) → maxDepth es ≤ totalSize es
  | [] => by rw [maxDepth, totalSize]
  | e :: es => by
    have he := depth_le_size e
    have hes := maxDepth_le_totalSize es
    rw [maxDepth, totalSize]
    omega

end

end Expr

namespace Phrase

mutual

/-- A node stands for a number, for a name, or for the sign between or before its operands. -/
theorem Derivation.size_le : {p : Phrase} → (d : Derivation p) → d.expr.size ≤ d.tokens.length
  | _, .operand d | _, .tighter d | _, .unsigned d | _, .base d => d.size_le
  | _, .binary lhs _ _ _ _ rhs | _, .exponent lhs rhs => by
    have hlhs := lhs.size_le
    have hrhs := rhs.size_le
    rw [Derivation.expr, Derivation.tokens, Expr.size, List.length_append, List.length_cons]
    omega
  | _, .unary _ _ _ d => by
    have ih := d.size_le
    rw [Derivation.expr, Derivation.tokens, Expr.size, List.length_cons]
    omega
  | _, .number _ | _, .var _ => Nat.le_refl 1
  | _, .call _ args => by
    have ih := args.totalSize_le
    rw [Derivation.expr, Derivation.tokens, Expr.size]
    simp only [List.cons_append, List.length_cons, List.length_append]
    omega
  | _, .paren d => by
    have ih := d.size_le
    rw [Derivation.expr, Derivation.tokens, List.cons_append, List.length_cons, List.length_append]
    omega

theorem Arguments.totalSize_le :
    (args : Arguments) → Expr.totalSize args.exprs ≤ args.tokens.length
  | .none => Nat.le_refl 0
  | .last d => by
    have ih := d.size_le
    rw [Arguments.exprs, Arguments.tokens, Expr.totalSize, Expr.totalSize]
    omega
  | .more d rest => by
    have hd := d.size_le
    have hrest := rest.totalSize_le
    rw [Arguments.exprs, Arguments.tokens, Expr.totalSize, List.length_append, List.length_cons]
    omega

end

end Phrase

/-! ### Tokens and bytes -/

theorem length_le_byteLength : (cs : List Char) → cs.length ≤ byteLength cs
  | [] => Nat.le_refl 0
  | c :: cs => by
    have ih := length_le_byteLength cs
    have hc := c.utf8Size_pos
    rw [List.length_cons, byteLength]
    omega

/-- A token is made of at least one character. -/
theorem Scans.length_le {cs : List Char} {ks : List Token} (h : Scans cs ks) :
    ks.length ≤ cs.length := by
  induction h with
  | nil => exact Nat.le_refl 0
  | blank _ _ ih => exact Nat.le_succ_of_le ih
  | lexeme _ hcut _ _ ih => exact Nat.lt_of_le_of_lt ih (Lexeme.length_cut?_lt hcut)

/-! ### Ways down a tree -/

/-- A step down from a node of a tree. -/
inductive Branch
  /-- To the operand of a sign. -/
  | operand
  /-- To the left operand of an operator. -/
  | left (op : BinaryOp)
  /-- To the right operand of an operator. -/
  | right (op : BinaryOp)
  /-- To an argument of a call. -/
  | argument
  deriving DecidableEq, Repr

/-- Whether what a step leads to stands one level deeper. -/
def Branch.nests : Branch → Bool
  | operand => true
  | left _ => false
  | right op => op = .pow
  | argument => true

/-- The steps lead from the root of a tree down to a part of it, which may be a leaf or not. -/
inductive Expr.Leads : Expr → List Branch → Expr → Prop
  | here (e : Expr) : Leads e [] e
  | operand (op : UnaryOp) {e part : Expr} {way : List Branch} (h : Leads e way part) :
    Leads (.unary op e) (.operand :: way) part
  | left (op : BinaryOp) {lhs part : Expr} {way : List Branch} (h : Leads lhs way part)
    (rhs : Expr) : Leads (.binary op lhs rhs) (.left op :: way) part
  | right (op : BinaryOp) (lhs : Expr) {rhs part : Expr} {way : List Branch}
    (h : Leads rhs way part) : Leads (.binary op lhs rhs) (.right op :: way) part
  | argument (function : String) {args : List Expr} {e part : Expr} {way : List Branch}
    (he : e ∈ args) (h : Leads e way part) : Leads (.call function args) (.argument :: way) part

namespace Phrase

mutual

/-- The steps that nest stand for levels of their own, below the level of the phrase. -/
theorem Derivation.nested_lt {way : List Branch} {part : Expr} : {p : Phrase} →
    (d : Derivation p) → d.expr.Leads way part → way.countP Branch.nests < d.nesting
  | _, .operand d, h | _, .tighter d, h | _, .unsigned d, h | _, .base d, h => d.nested_lt h
  | _, .binary lhs _ op _ hl rhs, h => by
    rw [Derivation.nesting]
    cases h with
    | here => exact Nat.lt_of_lt_of_le lhs.nesting_pos (Nat.le_max_left _ _)
    | left _ h =>
      rw [List.countP_cons_of_neg Bool.false_ne_true]
      exact Nat.lt_of_lt_of_le (lhs.nested_lt h) (Nat.le_max_left _ _)
    | right _ _ h =>
      have hop : op ≠ .pow := by
        rintro rfl
        cases hl
      rw [List.countP_cons_of_neg (by simpa [Branch.nests] using hop)]
      exact Nat.lt_of_lt_of_le (rhs.nested_lt h) (Nat.le_max_right _ _)
  | _, .unary _ _ _ d, h => by
    rw [Derivation.nesting]
    cases h with
    | here => exact Nat.lt_add_right _ Nat.one_pos
    | operand _ h =>
      have ih := d.nested_lt h
      rw [List.countP_cons_of_pos rfl]
      omega
  | _, .exponent base exponent, h => by
    rw [Derivation.nesting]
    cases h with
    | here => exact Nat.lt_of_lt_of_le base.nesting_pos (Nat.le_max_left _ _)
    | left _ h =>
      rw [List.countP_cons_of_neg Bool.false_ne_true]
      exact Nat.lt_of_lt_of_le (base.nested_lt h) (Nat.le_max_left _ _)
    | right _ _ h =>
      have ih := exponent.nested_lt h
      rw [List.countP_cons_of_pos rfl]
      omega
  | _, .number _, h | _, .var _, h => by
    cases h with
    | here => exact Nat.one_pos
  | _, .call _ args, h => by
    rw [Derivation.nesting]
    cases h with
    | here => exact Nat.lt_add_right _ Nat.one_pos
    | argument _ he h =>
      have ih := args.nested_lt he h
      rw [List.countP_cons_of_pos rfl]
      omega
  | _, .paren d, h => by
    have ih := d.nested_lt h
    rw [Derivation.nesting]
    omega

theorem Arguments.nested_lt {way : List Branch} {e part : Expr} : (args : Arguments) →
    e ∈ args.exprs → e.Leads way part → way.countP Branch.nests < args.nesting
  | .none, he, _ => absurd he List.not_mem_nil
  | .last d, he, h => by
    rw [List.mem_singleton.1 he] at h
    exact d.nested_lt h
  | .more d rest, he, h => by
    rw [Arguments.nesting]
    rcases List.mem_cons.1 he with rfl | he
    · exact Nat.lt_of_lt_of_le (d.nested_lt h) (Nat.le_max_left _ _)
    · exact Nat.lt_of_lt_of_le (rest.nested_lt he h) (Nat.le_max_right _ _)

end

end Phrase

/-! ### The bounds of a formula -/

namespace Formula

/-- A formula is as small as its text and the limits it was read under say. -/
structure Bounded (f : Formula) (limits : ParseLimits) : Prop where
  depth_le : f.expr.depth ≤ f.expr.size
  /-- There are no more nodes than tokens. -/
  size_le : ∃ ts, tokenize f.source = .ok ts ∧ f.expr.size ≤ ts.length ∧
    ts.length ≤ byteLength f.source.toList
  length_le : byteLength f.source.toList ≤ limits.maxLength
  /-- On no way down the tree are there as many steps that nest as levels are allowed. -/
  nested_lt : ∀ way part, f.expr.Leads way part → way.countP Branch.nests < limits.maxDepth

/-- Every text that is read as a formula has a bounded tree. -/
theorem bounded_of_parse {source : String} {limits : ParseLimits} {f : Formula}
    (h : parse source limits = .ok f) : f.source = source ∧ f.Bounded limits := by
  obtain ⟨e, hread, rfl⟩ := parse_eq_ok_iff.1 h
  obtain ⟨hlength, d, hscans, rfl, hnesting⟩ := readExpr_eq_ok_iff.1 hread
  obtain ⟨ts, hts, htokens⟩ := hscans.exists_tokensFrom 0
  have htokensLength : ts.length = d.tokens.length := by rw [← htokens, List.length_map]
  refine ⟨rfl, ?_, ⟨ts, hts, ?_, ?_⟩, hlength, fun way part hway => ?_⟩
  · exact d.expr.depth_le_size
  · rw [htokensLength]
    exact d.size_le
  · rw [htokensLength]
    exact Nat.le_trans hscans.length_le (length_le_byteLength _)
  · exact Nat.lt_of_lt_of_le (d.nested_lt hway) hnesting

/-- A formula whose variable stands on the fifth level: in an argument, behind a sign, in an
exponent and behind another sign. -/
def dampened : Formula where
  source := "max(-2 ** -SPEED, 1 + 1)"
  expr := .call "max" [.unary .minus (.binary .pow (.number 2) (.unary .minus (.var "SPEED"))),
    .binary .add (.number 1) (.number 1)]
  variableNames := ["SPEED"]

/-- Four of the steps to that variable nest, and no limit below five would do. -/
theorem bounded_of_parse_dampened :
    parse "max(-2 ** -SPEED, 1 + 1)" { maxLength := 24, maxDepth := 5 } = .ok dampened ∧
    dampened.expr.Leads [.argument, .operand, .right .pow, .operand] (.var "SPEED") ∧
    [Branch.argument, .operand, .right .pow, .operand].countP Branch.nests = 4 ∧
    dampened.Bounded { maxLength := 24, maxDepth := 5 } := by
  have hparse : parse "max(-2 ** -SPEED, 1 + 1)" { maxLength := 24, maxDepth := 5 } =
      .ok dampened := by decide +kernel
  refine ⟨hparse, ?_, rfl, (bounded_of_parse hparse).2⟩
  exact .argument "max" List.mem_cons_self
    (.operand .minus (.right .pow (.number 2) (.operand .minus (.here (.var "SPEED")))))

end Formula

end CharacterSheet
