import CharacterSheet.Formula.Grammar

/-!
# The grammar of formulas is unambiguous

A list of tokens has at most one derivation. Two derivations of one phrase are compared in front of
whatever follows them, as long as that does not go on with the phrase: then they are the same, and
so is what follows. The comparison descends on the nesting of the derivations, like the reader, and
within one nesting climbs through the phrases from the tightest.

* `Phrase.Begins`, `Phrase.Continues`, `Phrase.Stops` — the tokens that a phrase can begin with,
  those that would be taken into it if they came next, and the lists of tokens that end it;
* `Derivation.first`, `Derivation.steps` — operators of one level as a chain: the leftmost operand,
  and the operators with their right operands;
* `Phrase.Unambiguous`, `Derivation.eq_of_tokens_eq` — one derivation at most.
-/

namespace CharacterSheet.Phrase

/-! ### Where phrases begin and end -/

/-- The tokens that a phrase can begin with. -/
def Begins : Phrase → Token → Prop
  | operation _, t | signed, t =>
    match t with
    | .number _ | .name _ | .leftParen => True
    | .sign s => s.unary?.isSome
    | .rightParen | .comma => False
  | power, t | primary, t =>
    match t with
    | .number _ | .name _ | .leftParen => True
    | .sign _ | .rightParen | .comma => False

/-- The tokens that would be taken into a phrase if they came next. -/
def Continues : Phrase → Token → Prop
  | primary, t => t = .leftParen
  | power, t | signed, t => t = .leftParen ∨ t = .sign .doubleStar
  | operation ls, t =>
    (t = .leftParen ∨ t = .sign .doubleStar) ∨
      ∃ s op, t = .sign s ∧ s.binary? = some op ∧ ∃ l ∈ ls, op.level? = some l

/-- The tokens behind a phrase do not go on with it. -/
def Stops (p : Phrase) (us : List Token) : Prop := ∀ t ∈ us.head?, ¬p.Continues t

variable {p : Phrase} {l : Level} {ls : List Level} {us us' : List Token} {n : Nat}

theorem Stops.nil : p.Stops [] := by
  intro t ht
  cases ht

theorem stops_cons {t : Token} : p.Stops (t :: us) ↔ ¬p.Continues t := by
  simp [Stops]

theorem Stops.rightParen : p.Stops (.rightParen :: us) := by
  rw [stops_cons]
  cases p <;> simp [Continues]

theorem Stops.comma : p.Stops (.comma :: us) := by
  rw [stops_cons]
  cases p <;> simp [Continues]

theorem Stops.primary (h : p.Stops us) : Phrase.primary.Stops us := by
  intro t ht hc
  refine h t ht ?_
  cases p <;> simp_all [Continues]

theorem Stops.signed (h : (operation []).Stops us) : Phrase.signed.Stops us := by
  intro t ht hc
  exact h t ht (.inl hc)

theorem Stops.tighter (h : (operation (l :: ls)).Stops us) : (operation ls).Stops us := by
  rintro t ht (hc | ⟨s, op, hts, hs, l', hl', hop⟩)
  · exact h t ht (.inl hc)
  · exact h t ht (.inr ⟨s, op, hts, hs, l', List.mem_cons_of_mem _ hl', hop⟩)

theorem primary_stops_doubleStar : primary.Stops (.sign .doubleStar :: us) := by
  simp [stops_cons, Continues]

/-- An operator of a level outside `ls` ends the phrases of the levels `ls`. -/
theorem operation_stops_sign {s : Sign} {op : BinaryOp} (hs : s.binary? = some op)
    (hl : op.level? = some l) (hmem : l ∉ ls) : (operation ls).Stops (.sign s :: us) := by
  rw [stops_cons]
  rintro ((hc | hc) | ⟨s', op', hts, hs', l', hl', hop⟩)
  · cases hc
  · cases hc
    cases hs
    cases hl
  · cases hts
    rw [hs] at hs'
    cases hs'
    rw [hl] at hop
    cases hop
    exact hmem hl'

/-- An operator of the loosest level goes on with a phrase. -/
theorem not_operation_stops_sign {s : Sign} {op : BinaryOp} (hs : s.binary? = some op)
    (hl : op.level? = some l) : ¬(operation (l :: ls)).Stops (.sign s :: us) := by
  intro h
  exact stops_cons.1 h (.inr ⟨s, op, rfl, hs, l, List.mem_cons_self, hl⟩)

/-- A phrase has a first token, and that is one it can begin with. -/
theorem Derivation.exists_head : {p : Phrase} → (d : Derivation p) →
    ∃ t ts, d.tokens = t :: ts ∧ p.Begins t
  | _, .operand d => d.exists_head
  | _, .tighter d => d.exists_head
  | _, .binary lhs s _ _ _ rhs => by
    obtain ⟨t, ts, hts, ht⟩ := lhs.exists_head
    exact ⟨t, ts ++ .sign s :: rhs.tokens, by rw [tokens, hts, List.cons_append], ht⟩
  | _, .unary s _ hs d => ⟨.sign s, d.tokens, rfl, by simp [Begins, hs]⟩
  | _, .unsigned d => by
    obtain ⟨t, ts, hts, ht⟩ := d.exists_head
    refine ⟨t, ts, hts, ?_⟩
    cases t <;> trivial
  | _, .base d => d.exists_head
  | _, .exponent b e => by
    obtain ⟨t, ts, hts, ht⟩ := b.exists_head
    exact ⟨t, ts ++ .sign .doubleStar :: e.tokens, by rw [tokens, hts, List.cons_append], ht⟩
  | _, .number value => ⟨.number value, [], rfl, trivial⟩
  | _, .var name => ⟨.name name, [], rfl, trivial⟩
  | _, .call name args => ⟨.name name, .leftParen :: args.tokens ++ [.rightParen], rfl, trivial⟩
  | _, .paren d => ⟨.leftParen, d.tokens ++ [.rightParen], rfl, trivial⟩

theorem Derivation.begins_of_tokens_eq (d : Derivation p) {t : Token} {ts : List Token}
    (h : d.tokens ++ us = t :: ts) : p.Begins t := by
  obtain ⟨t', ts', hts, ht⟩ := d.exists_head
  rw [hts] at h
  cases (List.cons.inj h).1
  exact ht

theorem Derivation.nesting_pos : {p : Phrase} → (d : Derivation p) → 0 < d.nesting
  | _, .operand d => d.nesting_pos
  | _, .tighter d => d.nesting_pos
  | _, .binary lhs .. => Nat.lt_of_lt_of_le lhs.nesting_pos (Nat.le_max_left _ _)
  | _, .unary .. => Nat.lt_add_right _ Nat.one_pos
  | _, .unsigned d => d.nesting_pos
  | _, .base d => d.nesting_pos
  | _, .exponent b _ => Nat.lt_of_lt_of_le b.nesting_pos (Nat.le_max_left _ _)
  | _, .number _ => Nat.one_pos
  | _, .var _ => Nat.one_pos
  | _, .call .. => Nat.lt_add_right _ Nat.one_pos
  | _, .paren _ => Nat.lt_add_right _ Nat.one_pos

/-! ### Operators of one level as a chain -/

/-- An operator of a level with its right operand. -/
structure Step (l : Level) (ls : List Level) where
  sign : Sign
  op : BinaryOp
  binary_sign : sign.binary? = some op
  level_op : op.level? = some l
  operand : Derivation (operation ls)

namespace Step

/-- The tokens of an operator and its right operand. -/
def tokens (s : Step l ls) : List Token := .sign s.sign :: s.operand.tokens

/-- The operation of a left operand with an operator and its right operand. -/
def join (lhs : Derivation (operation (l :: ls))) (s : Step l ls) :
    Derivation (operation (l :: ls)) :=
  .binary lhs s.sign s.op s.binary_sign s.level_op s.operand

end Step

namespace Derivation

/-- The leftmost operand of the operators of the loosest level. -/
def first : Derivation (operation (l :: ls)) → Derivation (operation ls)
  | .tighter d => d
  | .binary lhs .. => lhs.first

/-- The operators of the loosest level with their right operands, from left to right. -/
def steps : Derivation (operation (l :: ls)) → List (Step l ls)
  | .tighter _ => []
  | .binary lhs s op hs hl rhs => lhs.steps ++ [⟨s, op, hs, hl, rhs⟩]

theorem foldl_join_steps : (d : Derivation (operation (l :: ls))) →
    d.steps.foldl Step.join (.tighter d.first) = d
  | .tighter d => by rw [steps, first, List.foldl_nil]
  | .binary lhs .. => by
    rw [steps, first, List.foldl_append, lhs.foldl_join_steps]
    rfl

theorem tokens_eq_first_append_steps : (d : Derivation (operation (l :: ls))) →
    d.tokens = d.first.tokens ++ d.steps.flatMap Step.tokens
  | .tighter d => by simp [tokens, first, steps]
  | .binary lhs .. => by
    rw [tokens, lhs.tokens_eq_first_append_steps, first, steps]
    simp [Step.tokens]

theorem expr_eq_foldl_steps : (d : Derivation (operation (l :: ls))) →
    d.expr = d.steps.foldl (fun e s => .binary s.op e s.operand.expr) d.first.expr
  | .tighter d => by rw [expr, steps, first, List.foldl_nil]
  | .binary lhs .. => by
    rw [expr, lhs.expr_eq_foldl_steps, steps, first, List.foldl_append]
    rfl

theorem nesting_first_le : (d : Derivation (operation (l :: ls))) → d.first.nesting ≤ d.nesting
  | .tighter d => by
    rw [first]
    exact Nat.le_refl _
  | .binary lhs .. => by
    rw [first]
    exact Nat.le_trans lhs.nesting_first_le (Nat.le_max_left _ _)

theorem nesting_le_of_mem_steps : (d : Derivation (operation (l :: ls))) → ∀ s ∈ d.steps,
    s.operand.nesting ≤ d.nesting
  | .tighter _, s, hs => by
    rw [steps] at hs
    cases hs
  | .binary lhs .., s, hs => by
    rw [steps, List.mem_append, List.mem_singleton] at hs
    rcases hs with hs | rfl
    · exact Nat.le_trans (lhs.nesting_le_of_mem_steps s hs) (Nat.le_max_left _ _)
    · exact Nat.le_max_right _ _

end Derivation

/-- What ends a chain of operators also ends each operand in it. -/
theorem stops_steps (hmem : l ∉ ls) (hus : (operation (l :: ls)).Stops us)
    (steps : List (Step l ls)) : (operation ls).Stops (steps.flatMap Step.tokens ++ us) := by
  cases steps with
  | nil => exact hus.tighter
  | cons s steps => exact operation_stops_sign s.binary_sign s.level_op hmem

/-! ### One derivation at most -/

/-- Derivations of `p` that nest at most `n` levels deep are determined by their tokens, in front of
anything that ends the phrase. -/
def Unambiguous (p : Phrase) (n : Nat) : Prop :=
  ∀ (d d' : Derivation p) (us us' : List Token), d.nesting ≤ n → d'.nesting ≤ n → p.Stops us →
    p.Stops us' → d.tokens ++ us = d'.tokens ++ us' → d = d' ∧ us = us'

theorem Unambiguous.steps_eq (h : (operation ls).Unambiguous n) (hmem : l ∉ ls)
    (hus : (operation (l :: ls)).Stops us) (hus' : (operation (l :: ls)).Stops us')
    {steps steps' : List (Step l ls)} (hn : ∀ s ∈ steps, s.operand.nesting ≤ n)
    (hn' : ∀ s ∈ steps', s.operand.nesting ≤ n)
    (heq : steps.flatMap Step.tokens ++ us = steps'.flatMap Step.tokens ++ us') :
    steps = steps' ∧ us = us' := by
  induction steps generalizing steps' with
  | nil =>
    cases steps' with
    | nil => exact ⟨rfl, heq⟩
    | cons s' steps' =>
      obtain rfl : us = _ := heq
      exact absurd hus (not_operation_stops_sign s'.binary_sign s'.level_op)
  | cons s steps ih =>
    cases steps' with
    | nil =>
      obtain rfl : _ = us' := heq
      exact absurd hus' (not_operation_stops_sign s.binary_sign s.level_op)
    | cons s' steps' =>
      obtain ⟨sign, op, hs, hl, operand⟩ := s
      obtain ⟨sign', op', hs', hl', operand'⟩ := s'
      simp only [List.flatMap_cons, Step.tokens, List.cons_append, List.append_assoc,
        List.cons.injEq, Token.sign.injEq] at heq
      obtain ⟨rfl, heq⟩ := heq
      rw [hs] at hs'
      cases hs'
      obtain ⟨rfl, htail⟩ := h operand operand' _ _ (hn _ List.mem_cons_self)
        (hn' _ List.mem_cons_self) (stops_steps hmem hus steps) (stops_steps hmem hus' steps') heq
      obtain ⟨rfl, rfl⟩ := ih (fun s hs => hn s (List.mem_cons_of_mem _ hs))
        (fun s hs => hn' s (List.mem_cons_of_mem _ hs)) htail
      exact ⟨rfl, rfl⟩

theorem Unambiguous.of_cons (h : (operation ls).Unambiguous n) (hmem : l ∉ ls) :
    (operation (l :: ls)).Unambiguous n := by
  intro d d' us us' hn hn' hus hus' heq
  rw [d.tokens_eq_first_append_steps, d'.tokens_eq_first_append_steps, List.append_assoc,
    List.append_assoc] at heq
  obtain ⟨hfirst, htail⟩ := h d.first d'.first _ _ (Nat.le_trans d.nesting_first_le hn)
    (Nat.le_trans d'.nesting_first_le hn') (stops_steps hmem hus _) (stops_steps hmem hus' _) heq
  obtain ⟨hsteps, rfl⟩ := h.steps_eq hmem hus hus'
    (fun s hs => Nat.le_trans (d.nesting_le_of_mem_steps s hs) hn)
    (fun s hs => Nat.le_trans (d'.nesting_le_of_mem_steps s hs) hn') htail
  refine ⟨?_, rfl⟩
  rw [← d.foldl_join_steps, ← d'.foldl_join_steps, hfirst, hsteps]

theorem Unambiguous.operation_of_signed (h : signed.Unambiguous n) :
    {ls : List Level} → ls.Nodup → (operation ls).Unambiguous n
  | [], _ => by
    rintro ⟨d⟩ ⟨d'⟩ us us' hn hn' hus hus' heq
    obtain ⟨rfl, rfl⟩ := h d d' us us' hn hn' hus.signed hus'.signed heq
    exact ⟨rfl, rfl⟩
  | _ :: _, hls => (h.operation_of_signed hls.of_cons).of_cons (List.nodup_cons.1 hls).1

theorem Unambiguous.arguments_eq (h : expression.Unambiguous n) : (args args' : Arguments) →
    args.nesting ≤ n → args'.nesting ≤ n →
    args.tokens ++ .rightParen :: us = args'.tokens ++ .rightParen :: us' → args = args' ∧ us = us'
  | .none, .none, _, _, heq => ⟨rfl, (List.cons.inj heq).2⟩
  -- no argument begins with the closing parenthesis
  | .none, .last d, _, _, heq => (d.begins_of_tokens_eq heq.symm).elim
  | .last d, .none, _, _, heq => (d.begins_of_tokens_eq heq).elim
  | .none, .more d rest, _, _, heq => by
    rw [Arguments.tokens, Arguments.tokens, List.append_assoc] at heq
    exact (d.begins_of_tokens_eq heq.symm).elim
  | .more d rest, .none, _, _, heq => by
    rw [Arguments.tokens, Arguments.tokens, List.append_assoc] at heq
    exact (d.begins_of_tokens_eq heq).elim
  | .last d, .last d', hn, hn', heq => by
    obtain ⟨rfl, htail⟩ := h d d' _ _ hn hn' .rightParen .rightParen heq
    exact ⟨rfl, (List.cons.inj htail).2⟩
  | .last d, .more d' rest, hn, hn', heq => by
    rw [Arguments.tokens, Arguments.tokens, List.append_assoc] at heq
    obtain ⟨-, htail⟩ := h d d' _ _ hn (Nat.max_le.1 hn').1 .rightParen .comma heq
    cases (List.cons.inj htail).1
  | .more d rest, .last d', hn, hn', heq => by
    rw [Arguments.tokens, Arguments.tokens, List.append_assoc] at heq
    obtain ⟨-, htail⟩ := h d d' _ _ (Nat.max_le.1 hn).1 hn' .comma .rightParen heq
    cases (List.cons.inj htail).1
  | .more d rest, .more d' rest', hn, hn', heq => by
    rw [Arguments.tokens, Arguments.tokens, List.append_assoc, List.append_assoc] at heq
    obtain ⟨hd, hrest⟩ := Nat.max_le.1 hn
    obtain ⟨hd', hrest'⟩ := Nat.max_le.1 hn'
    obtain ⟨rfl, htail⟩ := h d d' _ _ hd hd' .comma .comma heq
    obtain ⟨rfl, rfl⟩ := h.arguments_eq rest rest' hrest hrest' (List.cons.inj htail).2
    exact ⟨rfl, rfl⟩

theorem Unambiguous.primary_of_expression (h : expression.Unambiguous n) :
    primary.Unambiguous (n + 1) := by
  intro d d' us us' hn hn' hus hus' heq
  cases d with
  | number x =>
    cases d' <;> cases heq
    exact ⟨rfl, rfl⟩
  | var name =>
    cases d' with
    | var name' =>
      cases heq
      exact ⟨rfl, rfl⟩
    | call name' args' =>
      -- the parenthesis of the call would be taken into the variable
      obtain ⟨-, rfl⟩ := List.cons.inj heq
      exact absurd rfl (stops_cons.1 hus)
    | number _ | paren _ => cases heq
  | call name args =>
    cases d' with
    | call name' args' =>
      simp only [Derivation.tokens, List.cons_append, List.append_assoc, List.nil_append,
        List.cons.injEq, Token.name.injEq, true_and] at heq
      obtain ⟨rfl, heq⟩ := heq
      simp only [Derivation.nesting, Nat.add_comm 1, Nat.add_le_add_iff_right] at hn hn'
      obtain ⟨rfl, rfl⟩ := h.arguments_eq args args' hn hn' heq
      exact ⟨rfl, rfl⟩
    | var name' =>
      obtain ⟨-, rfl⟩ := List.cons.inj heq
      exact absurd rfl (stops_cons.1 hus')
    | number _ | paren _ => cases heq
  | paren d =>
    cases d' with
    | paren d' =>
      simp only [Derivation.tokens, List.cons_append, List.append_assoc, List.nil_append,
        List.cons.injEq, true_and] at heq
      simp only [Derivation.nesting, Nat.add_comm 1, Nat.add_le_add_iff_right] at hn hn'
      obtain ⟨rfl, htail⟩ := h d d' _ _ hn hn' .rightParen .rightParen heq
      cases htail
      exact ⟨rfl, rfl⟩
    | number _ | var _ | call _ _ => cases heq

theorem Unambiguous.power_of_primary (hprimary : primary.Unambiguous (n + 1))
    (h : signed.Unambiguous n) : power.Unambiguous (n + 1) := by
  intro d d' us us' hn hn' hus hus' heq
  cases d with
  | base d =>
    cases d' with
    | base d' =>
      obtain ⟨rfl, rfl⟩ := hprimary d d' us us' hn hn' hus.primary hus'.primary heq
      exact ⟨rfl, rfl⟩
    | exponent b' e' =>
      rw [Derivation.tokens, Derivation.tokens, List.append_assoc] at heq
      obtain ⟨-, rfl⟩ := hprimary d b' _ _ hn (Nat.max_le.1 hn').1 hus.primary
        primary_stops_doubleStar heq
      exact absurd (.inr rfl) (stops_cons.1 hus)
  | exponent b e =>
    cases d' with
    | base d' =>
      rw [Derivation.tokens, Derivation.tokens, List.append_assoc] at heq
      obtain ⟨-, rfl⟩ := hprimary b d' _ _ (Nat.max_le.1 hn).1 hn' primary_stops_doubleStar
        hus'.primary heq
      exact absurd (.inr rfl) (stops_cons.1 hus')
    | exponent b' e' =>
      rw [Derivation.tokens, Derivation.tokens, List.append_assoc, List.append_assoc] at heq
      rw [Derivation.nesting, Nat.max_le, Nat.add_comm 1, Nat.add_le_add_iff_right] at hn hn'
      obtain ⟨rfl, htail⟩ := hprimary b b' _ _ hn.1 hn'.1 primary_stops_doubleStar
        primary_stops_doubleStar heq
      obtain ⟨rfl, rfl⟩ := h e e' us us' hn.2 hn'.2 hus hus' (List.cons.inj htail).2
      exact ⟨rfl, rfl⟩

theorem Unambiguous.signed_of_power (hpower : power.Unambiguous (n + 1))
    (h : signed.Unambiguous n) : signed.Unambiguous (n + 1) := by
  intro d d' us us' hn hn' hus hus' heq
  cases d with
  | unary s op hs d =>
    cases d' with
    | unary s' op' hs' d' =>
      simp only [Derivation.tokens, List.cons_append, List.cons.injEq, Token.sign.injEq] at heq
      obtain ⟨rfl, heq⟩ := heq
      rw [hs] at hs'
      cases hs'
      simp only [Derivation.nesting, Nat.add_comm 1, Nat.add_le_add_iff_right] at hn hn'
      obtain ⟨rfl, rfl⟩ := h d d' us us' hn hn' hus hus' heq
      exact ⟨rfl, rfl⟩
    | unsigned d' => exact (d'.begins_of_tokens_eq heq.symm).elim
  | unsigned d =>
    cases d' with
    | unary s' op' hs' d' => exact (d.begins_of_tokens_eq heq).elim
    | unsigned d' =>
      obtain ⟨rfl, rfl⟩ := hpower d d' us us' hn hn' hus hus' heq
      exact ⟨rfl, rfl⟩

theorem nodup_levels : Level.all.Nodup := by decide

theorem signed_unambiguous : (n : Nat) → signed.Unambiguous n
  | 0 => by
    intro d d' us us' hn
    exact absurd hn (Nat.not_le_of_gt d.nesting_pos)
  | n + 1 => by
    have ih := signed_unambiguous n
    -- what stands in parentheses, behind a sign or behind `**` nests less deep than the whole
    have hprimary := (ih.operation_of_signed nodup_levels).primary_of_expression
    exact (hprimary.power_of_primary ih).signed_of_power ih

/-- Expressions with the same tokens have the same derivation. -/
theorem Derivation.eq_of_tokens_eq (d d' : Derivation expression) (h : d.tokens = d'.tokens) :
    d = d' := by
  have hu := (signed_unambiguous (max d.nesting d'.nesting)).operation_of_signed nodup_levels
  exact (hu d d' [] [] (Nat.le_max_left _ _) (Nat.le_max_right _ _) .nil .nil (by rw [h])).1

end CharacterSheet.Phrase
