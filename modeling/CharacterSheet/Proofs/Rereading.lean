import CharacterSheet.Proofs.Printing
import CharacterSheet.Proofs.Reading

/-!
# Reading a printed tree

The text of a tree is a formula. It reads back as the tree, except that an exponent binds tighter
than the signs in front of its base: the printer sets a signed base in no parentheses, so the text
of `(-2) ** 2` is that of `-(2 ** 2)`.

* `Expr.reread` — the tree that the text of a tree is read as;
* `Expr.HasSignedBase`, `Expr.reread_eq_self_iff` — the trees that are read back as others;
* `Expr.written` — the tokens of a printed tree have a derivation with the reread tree.
-/

namespace CharacterSheet

open Phrase

namespace Expr

/-! ### The tree of a text -/

mutual

/-- The parts of a tree, itself among them. -/
def subtrees : Expr → List Expr
  | number value => [number value]
  | var name => [var name]
  | unary op operand => unary op operand :: subtrees operand
  | binary op lhs rhs => binary op lhs rhs :: (subtrees lhs ++ subtrees rhs)
  | call function args => call function args :: allSubtrees args

/-- The parts of some trees, themselves among them. -/
def allSubtrees : List Expr → List Expr
  | [] => []
  | e :: es => subtrees e ++ allSubtrees es

end

/-- Among some trees, there is a power whose base has a sign. -/
def SignedBaseIn (es : List Expr) : Prop := ∃ op x z, binary .pow (unary op x) z ∈ es

/-- Somewhere in a tree, an operand with a sign is raised to a power. -/
def HasSignedBase (e : Expr) : Prop := SignedBaseIn e.subtrees

/-- The number of signs in front of an operand. -/
def signCount : Expr → Nat
  | unary _ operand => operand.signCount + 1
  | _ => 0

/-- Raises an operand to a power, where the exponent belongs to what is behind the first `n` signs
of the operand. -/
def raiseBehind : (n : Nat) → (base exponent : Expr) → Expr
  | n + 1, unary op operand, exponent => unary op (raiseBehind n operand exponent)
  | _, base, exponent => binary .pow base exponent

mutual

/-- The tree that the text of a tree is read as. -/
def reread : Expr → Expr
  | number value => number value
  | var name => var name
  | unary op operand => unary op (reread operand)
  | binary op lhs rhs =>
    if op = .pow then raiseBehind lhs.signCount (reread lhs) (reread rhs)
    else binary op (reread lhs) (reread rhs)
  | call function args => call function (rereads args)

/-- The trees that the texts of some trees are read as. -/
def rereads : List Expr → List Expr
  | [] => []
  | e :: es => reread e :: rereads es

end

section SignedBaseIn

variable {e : Expr} {es es' : List Expr}

@[simp] theorem not_signedBaseIn_nil : ¬SignedBaseIn [] := by
  rintro ⟨op, x, z, h⟩
  cases h

@[simp] theorem signedBaseIn_append :
    SignedBaseIn (es ++ es') ↔ SignedBaseIn es ∨ SignedBaseIn es' := by
  simp only [SignedBaseIn, List.mem_append, exists_or]

theorem signedBaseIn_cons :
    SignedBaseIn (e :: es) ↔ (∃ op x z, e = binary .pow (unary op x) z) ∨ SignedBaseIn es := by
  simp only [SignedBaseIn, List.mem_cons, exists_or, eq_comm]

end SignedBaseIn

theorem raiseBehind_zero (base exponent : Expr) :
    raiseBehind 0 base exponent = binary .pow base exponent := by
  cases base <;> rfl

theorem raiseBehind_foldr (ops : List UnaryOp) (base exponent : Expr) :
    raiseBehind ops.length (ops.foldr unary base) exponent =
      ops.foldr unary (binary .pow base exponent) := by
  induction ops with
  | nil => exact raiseBehind_zero base exponent
  | cons op ops ih =>
    simp only [List.foldr_cons, List.length_cons, raiseBehind, ih]

theorem reread_binary_eq_self_iff {op : BinaryOp} {lhs rhs : Expr} :
    reread (binary op lhs rhs) = binary op lhs rhs ↔
      ¬(∃ op' x z, binary op lhs rhs = binary .pow (unary op' x) z) ∧ reread lhs = lhs ∧
        reread rhs = rhs := by
  by_cases hop : op = .pow
  · subst hop
    cases lhs with
    | unary op' x => simp [reread, signCount, raiseBehind]
    | _ => simp [reread, signCount, raiseBehind_zero]
  · simp [reread, hop]

mutual

/-- The text of a tree is read as the tree, unless an operand with a sign is raised to a power. -/
theorem reread_eq_self_iff : (e : Expr) → (e.reread = e ↔ ¬e.HasSignedBase)
  | number _ | var _ => by simp [reread, HasSignedBase, subtrees, signedBaseIn_cons]
  | unary op x => by
    have ih := reread_eq_self_iff x
    simpa [reread, HasSignedBase, subtrees, signedBaseIn_cons] using ih
  | binary op lhs rhs => by
    have hlhs := reread_eq_self_iff lhs
    have hrhs := reread_eq_self_iff rhs
    simp only [reread_binary_eq_self_iff, hlhs, hrhs, HasSignedBase, subtrees, signedBaseIn_cons,
      signedBaseIn_append, not_or]
  | call function args => by
    have ih := rereads_eq_self_iff args
    simpa [reread, HasSignedBase, subtrees, signedBaseIn_cons] using ih

theorem rereads_eq_self_iff : (es : List Expr) → (rereads es = es ↔ ¬SignedBaseIn (allSubtrees es))
  | [] => by simp [rereads, allSubtrees]
  | e :: es => by
    have he := reread_eq_self_iff e
    have hes := rereads_eq_self_iff es
    simp only [rereads, allSubtrees, List.cons.injEq, signedBaseIn_append, not_or, he, hes]
    rfl

end

end Expr

/-! ### Derivations of printed tokens -/

namespace Phrase

theorem exists_signed (ops : List UnaryOp) (d : Derivation power) :
    ∃ d' : Derivation signed, d'.tokens = ops.map (Token.sign ·.sign) ++ d.tokens ∧
      d'.expr = ops.foldr Expr.unary d.expr := by
  induction ops with
  | nil => exact ⟨.unsigned d, rfl, rfl⟩
  | cons op ops ih =>
    obtain ⟨d', htokens, hexpr⟩ := ih
    refine ⟨.unary op.sign op op.unary?_sign d', ?_, ?_⟩
    · rw [Derivation.tokens, htokens, List.map_cons, List.cons_append]
    · rw [Derivation.expr, hexpr, List.foldr_cons]

theorem exists_operation (ls : List Level) (d : Derivation signed) :
    ∃ d' : Derivation (operation ls), d'.tokens = d.tokens ∧ d'.expr = d.expr := by
  induction ls with
  | nil => exact ⟨.operand d, rfl, rfl⟩
  | cons l ls ih =>
    obtain ⟨d', htokens, hexpr⟩ := ih
    exact ⟨.tighter d', htokens, hexpr⟩

/-- Two operands are joined on the level of their operator, and are taken as they are on the tighter
levels. -/
theorem exists_joined {op : BinaryOp} {l : Level} (hl : op.level? = some l)
    (lhs rhs : Derivation signed) {ls : List Level} (hmem : l ∈ ls) :
    ∃ d : Derivation (operation ls), d.tokens = lhs.tokens ++ .sign op.sign :: rhs.tokens ∧
      d.expr = Expr.binary op lhs.expr rhs.expr := by
  induction ls with
  | nil => cases hmem
  | cons l' ls ih =>
    rcases List.mem_cons.1 hmem with rfl | hmem
    · obtain ⟨a, hatokens, haexpr⟩ := exists_operation (l :: ls) lhs
      obtain ⟨b, hbtokens, hbexpr⟩ := exists_operation ls rhs
      refine ⟨.binary a op.sign op op.binary?_sign hl b, ?_, ?_⟩
      · rw [Derivation.tokens, hatokens, hbtokens]
      · rw [Derivation.expr, haexpr, hbexpr]
    · obtain ⟨d, htokens, hexpr⟩ := ih hmem
      exact ⟨.tighter d, htokens, hexpr⟩

end Phrase

namespace Expr

/-- The tokens of a tree have a derivation with the reread tree. As an operand, a tree is printed as
signs in front of a primary expression. -/
structure Written (e : Expr) : Prop where
  text : ∃ d : Phrase.Derivation Phrase.expression, d.tokens = e.textTokens ∧ d.expr = e.reread
  operand : ∃ (ops : List UnaryOp) (d : Phrase.Derivation Phrase.primary),
    grouped e e.textTokens = ops.map (Token.sign ·.sign) ++ d.tokens ∧
      ops.length = e.signCount ∧ e.reread = ops.foldr unary d.expr

namespace Written

variable {e lhs rhs : Expr}

theorem signed (h : Written e) : ∃ d : Phrase.Derivation Phrase.signed,
    d.tokens = grouped e e.textTokens ∧ d.expr = e.reread := by
  obtain ⟨ops, d, htokens, -, hexpr⟩ := h.operand
  rw [htokens, hexpr]
  exact Phrase.exists_signed ops (.base d)

/-- What is no binary operation is printed as a text like as an operand. -/
theorem of_operand (he : e.isBinary = false) (ops : List UnaryOp)
    (d : Phrase.Derivation Phrase.primary)
    (htokens : e.textTokens = ops.map (Token.sign ·.sign) ++ d.tokens)
    (hcount : ops.length = e.signCount) (hexpr : e.reread = ops.foldr unary d.expr) :
    Written e where
  text := by
    obtain ⟨d', htokens', hexpr'⟩ := Phrase.exists_signed ops (.base d)
    obtain ⟨d'', htokens'', hexpr''⟩ := Phrase.exists_operation Level.all d'
    exact ⟨d'', by rw [htokens'', htokens', htokens]; rfl, by rw [hexpr'', hexpr', hexpr]; rfl⟩
  operand := ⟨ops, d, by simpa [grouped, he] using htokens, hcount, hexpr⟩

/-- As an operand, a binary operation stands in parentheses. -/
theorem of_text {op : BinaryOp} (d : Phrase.Derivation Phrase.expression)
    (htokens : d.tokens = (binary op lhs rhs).textTokens)
    (hexpr : d.expr = (binary op lhs rhs).reread) : Written (binary op lhs rhs) where
  text := ⟨d, htokens, hexpr⟩
  operand := ⟨[], .paren d, by rw [Derivation.tokens, htokens]; rfl, rfl, hexpr.symm⟩

/-- In a power, the exponent is derived behind the signs of the base. -/
theorem pow (hlhs : Written lhs) (hrhs : Written rhs) : Written (binary .pow lhs rhs) := by
  obtain ⟨ops, base, hbase, hcount, hexpr⟩ := hlhs.operand
  obtain ⟨exponent, hexponent, hexpr'⟩ := hrhs.signed
  -- `**` takes the primary behind the signs as its base, and the signs stay outside
  obtain ⟨d, htokens, hd⟩ := Phrase.exists_signed ops (.exponent base exponent)
  obtain ⟨d', htokens', hd'⟩ := Phrase.exists_operation Level.all d
  refine of_text d' ?_ ?_
  · rw [htokens', htokens, textTokens, hbase, Derivation.tokens, hexponent, List.append_assoc]
    rfl
  · rw [hd', hd, Derivation.expr, hexpr', reread, if_pos rfl, hexpr, ← hcount, raiseBehind_foldr]

theorem binary {op : BinaryOp} {l : Level} (hl : op.level? = some l) (hlhs : Written lhs)
    (hrhs : Written rhs) : Written (binary op lhs rhs) := by
  obtain ⟨a, hatokens, haexpr⟩ := hlhs.signed
  obtain ⟨b, hbtokens, hbexpr⟩ := hrhs.signed
  have hmem : l ∈ Level.all := by cases l <;> decide
  have hop : op ≠ .pow := by
    rintro rfl
    cases hl
  obtain ⟨d, htokens, hd⟩ := Phrase.exists_joined hl a b hmem
  refine of_text d ?_ ?_
  · rw [htokens, hatokens, hbtokens, textTokens]
  · rw [hd, haexpr, hbexpr, reread, if_neg hop]

end Written

mutual

/-- The tokens of every printed tree have a derivation with the reread tree. -/
theorem written : (e : Expr) → Written e
  | number value => .of_operand rfl [] (.number value) rfl rfl rfl
  | var name => .of_operand rfl [] (.var name) rfl rfl rfl
  | unary op operand => by
    -- one more sign in front of those of the operand
    obtain ⟨ops, d, htokens, hcount, hexpr⟩ := (written operand).operand
    refine .of_operand rfl (op :: ops) d ?_ ?_ ?_
    · rw [textTokens, htokens, List.map_cons, List.cons_append]
    · rw [List.length_cons, hcount, signCount]
    · rw [reread, hexpr, List.foldr_cons]
  | binary op lhs rhs => by
    cases hl : op.level? with
    | some l => exact (written lhs).binary hl (written rhs)
    | none =>
      obtain rfl : op = .pow := by cases op <;> first | rfl | cases hl
      exact (written lhs).pow (written rhs)
  | call function args => by
    obtain ⟨as, htokens, hexprs⟩ := writtenArguments args
    refine .of_operand rfl [] (.call function as) ?_ rfl ?_
    · rw [textTokens, Derivation.tokens, htokens]
      rfl
    · rw [reread, List.foldr_nil, Derivation.expr, hexprs]

theorem writtenArguments : (es : List Expr) →
    ∃ args : Phrase.Arguments, args.tokens = argumentsTokens es ∧ args.exprs = rereads es
  | [] => ⟨.none, rfl, rfl⟩
  | [e] => by
    obtain ⟨d, htokens, hexpr⟩ := (written e).text
    exact ⟨.last d, htokens, by rw [Arguments.exprs, hexpr]; rfl⟩
  | e :: e' :: es => by
    obtain ⟨d, htokens, hexpr⟩ := (written e).text
    obtain ⟨args, htokens', hexprs⟩ := writtenArguments (e' :: es)
    refine ⟨.more d args, ?_, ?_⟩
    · simp only [Arguments.tokens, htokens, htokens', argumentsTokens]
    · rw [Arguments.exprs, hexpr, hexprs]
      rfl

end

end Expr

end CharacterSheet
