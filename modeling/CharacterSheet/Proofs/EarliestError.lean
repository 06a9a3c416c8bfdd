import CharacterSheet.Proofs.Except
import CharacterSheet.Proofs.LargerLimits
import CharacterSheet.Proofs.Reading

/-!
# Syntax errors stand at the earliest token

The reader looks at one token ahead and takes back none. So what it has taken when it turns a token
away is the beginning of a formula, of one that nests no deeper than allowed, and that token could
not have come next in any formula. Where it finds the list at its end, the list goes on to a
formula.

For each part of the reader, one lemma says what it takes for that part to fail, and for each rule
of the grammar, one says how viable tokens stand in larger ones. Where a reading fails then follows
phrase by phrase, like what is read in `CharacterSheet.Proofs.Reading`.

* `Reader.LooksAhead` — what is read depends on the tokens that are taken and on the next one;
* `Phrase.Viable`, `Phrase.ViableArguments` — tokens that some phrase goes on from;
* `StopsBehind` — where a reading fails: behind viable tokens, whatever comes after the next one;
* `Reader.StopsEarliest` — a reader of phrases fails nowhere else;
* `Formula.rejectsEarliest` — what is said of lists of tokens that are no formulas.
-/

namespace CharacterSheet

open Phrase

variable {α β : Type}

/-- The error of tokens that cannot go on with the next one, or cannot end if there is none. -/
def SyntaxError.unexpected : Option PlacedToken → SyntaxError
  | some t => .unexpectedToken t
  | none => .unexpectedEnd

theorem SyntaxError.unexpected_inj {next next' : Option PlacedToken} :
    unexpected next = unexpected next' ↔ next = next' := by
  cases next <;> cases next' <;> simp [unexpected]

/-! ### How the parts of the reader fail -/

section Parts

variable {r : Reader Expr} {l : Level} {ts : List PlacedToken} {t : PlacedToken} {lhs : Expr}
  {error : SyntaxError}

theorem bind_pure_eq_error {x : Except SyntaxError α} {f : α → β} :
    (x >>= fun a => pure (f a)) = .error error ↔ x = .error error := by
  cases x with
  | error error => exact Iff.of_eq (by simp [bind, Except.bind])
  | ok a => constructor <;> rintro ⟨⟩

theorem continued_ne_error (h : ∀ t ∈ ts.head?, l.operator? t = none) :
    l.continued r lhs ts ≠ .error error := by
  cases ts with
  | nil =>
    rw [Level.continued]
    rintro ⟨⟩
  | cons t ts =>
    have ht : l.operator? t = none := h t rfl
    rw [Level.continued, ht]
    rintro ⟨⟩

theorem continued_eq_error {op : BinaryOp} (h : l.operator? t = some op) :
    l.continued r lhs (t :: ts) = .error error ↔
      r ts = .error error ∨
        ∃ b vs, r.Reads ts b vs ∧ l.continued r (.binary op lhs b) vs = .error error := by
  rw [Level.continued, h, bind_eq_error]
  refine or_congr_right ?_
  simp only [bind_pure_eq_error]
  exact exists_eq_ok_iff (P := fun b vs => l.continued r (.binary op lhs b) vs = .error error)

theorem level_eq_error : l.reader r ts = .error error ↔
    r ts = .error error ∨
      ∃ a vs, r.Reads ts a vs ∧ l.continued r a vs = .error error := by
  unfold Level.reader
  rw [bind_eq_error]
  refine or_congr_right ?_
  simp only [bind_pure_eq_error]
  exact exists_eq_ok_iff (P := fun a vs => l.continued r a vs = .error error)

theorem arguments_rightParen_ne_error {q : Nat} :
    Expr.arguments r (⟨.rightParen, q⟩ :: ts) ≠ .error error := by
  rw [Expr.arguments]
  rintro ⟨⟩

theorem arguments_eq_error (h : ∀ t ∈ ts.head?, t.token ≠ .rightParen) :
    Expr.arguments r ts = .error error ↔ r ts = .error error ∨
      ∃ e vs, r.Reads ts e vs ∧
        ((∃ q ws, vs = ⟨.comma, q⟩ :: ws ∧ Expr.arguments r ws = .error error) ∨
          (∀ t ∈ vs.head?, t.token ≠ .comma ∧ t.token ≠ .rightParen) ∧
            error = .unexpected vs.head?) := by
  rw [Expr.arguments, bind_eq_error]
  · refine or_congr_right ⟨?_, ?_⟩
    · rintro ⟨⟨e, vs, hlt⟩, hp, hy⟩
      refine ⟨e, vs, ⟨_, hp, rfl, rfl⟩, ?_⟩
      dsimp only at hy
      split at hy
      · exact .inl ⟨_, _, rfl, bind_pure_eq_error.1 hy⟩
      · cases hy
      · next t ws hcomma hparen =>
        cases hy
        refine .inr ⟨?_, rfl⟩
        rintro ⟨k, q⟩ ⟨⟩
        exact ⟨fun hk => hcomma q (by rw [← hk]), fun hk => hparen q (by rw [← hk])⟩
      · cases hy
        exact .inr ⟨by simp, rfl⟩
    · rintro ⟨_, _, ⟨⟨e, vs, hlt⟩, hp, rfl, rfl⟩, ⟨q, ws, rfl, hws⟩ | ⟨hvs, rfl⟩⟩
      · exact ⟨_, hp, bind_pure_eq_error.2 hws⟩
      · refine ⟨_, hp, ?_⟩
        dsimp only
        split
        · exact absurd rfl (hvs _ rfl).1
        · exact absurd rfl (hvs _ rfl).2
        · rfl
        · rfl
  · rintro q ws rfl
    exact h _ rfl rfl

theorem number_ne_error {x : Float} {q : Nat} :
    Expr.primary r (⟨.number x, q⟩ :: ts) ≠ .error error := by
  rw [Expr.primary]
  rintro ⟨⟩

theorem call_eq_error {name : String} {q q' : Nat} :
    Expr.primary r (⟨.name name, q⟩ :: ⟨.leftParen, q'⟩ :: ts) = .error error ↔
      Expr.arguments r ts = .error error := by
  rw [Expr.primary, bind_pure_eq_error]

theorem var_ne_error {name : String} {q : Nat} (h : ∀ t ∈ ts.head?, t.token ≠ .leftParen) :
    Expr.primary r (⟨.name name, q⟩ :: ts) ≠ .error error := by
  rw [Expr.primary]
  · rintro ⟨⟩
  · rintro q ws rfl
    exact h _ rfl rfl

theorem paren_eq_error {q : Nat} :
    Expr.primary r (⟨.leftParen, q⟩ :: ts) = .error error ↔ r ts = .error error ∨
      ∃ e vs, r.Reads ts e vs ∧ (∀ t ∈ vs.head?, t.token ≠ .rightParen) ∧
        error = .unexpected vs.head? := by
  rw [Expr.primary, bind_eq_error]
  refine or_congr_right ⟨?_, ?_⟩
  · rintro ⟨⟨e, vs, hlt⟩, hp, hy⟩
    refine ⟨e, vs, ⟨_, hp, rfl, rfl⟩, ?_⟩
    dsimp only at hy
    split at hy
    · cases hy
    · next t ws hparen =>
      cases hy
      refine ⟨?_, rfl⟩
      rintro ⟨k, q⟩ ⟨⟩ hk
      exact hparen q (by rw [← hk])
    · cases hy
      exact ⟨by simp, rfl⟩
  · rintro ⟨_, _, ⟨⟨e, vs, hlt⟩, hp, rfl, rfl⟩, hvs, rfl⟩
    refine ⟨_, hp, ?_⟩
    dsimp only
    split
    · exact absurd rfl (hvs _ rfl)
    · rfl
    · rfl

theorem primary_eq_error (h : ∀ t ∈ ts.head?, ¬primary.Begins t.token) :
    Expr.primary r ts = .error (.unexpected ts.head?) := by
  cases ts with
  | nil => rw [Expr.primary]; rfl
  | cons t ts =>
    obtain ⟨k, q⟩ := t
    have hk := h _ rfl
    cases k with
    | number _ | name _ | leftParen => exact absurd trivial hk
    | sign _ | rightParen | comma => rfl

theorem power_eq_error : Expr.power r ts = .error error ↔
    Expr.primary (Expr.operation r) ts = .error error ∨
      ∃ b q ws, Reader.Reads (Expr.primary (Expr.operation r)) ts b (⟨.sign .doubleStar, q⟩ :: ws) ∧
        r ws = .error error := by
  rw [Expr.power, bind_eq_error]
  refine or_congr_right ⟨?_, ?_⟩
  · rintro ⟨⟨b, vs, hlt⟩, hp, hy⟩
    dsimp only at hy
    split at hy
    · exact ⟨b, _, _, ⟨_, hp, rfl, rfl⟩, bind_pure_eq_error.1 hy⟩
    · cases hy
  · rintro ⟨_, q, ws, ⟨⟨b, vs, hlt⟩, hp, rfl, rfl⟩, hws⟩
    exact ⟨_, hp, bind_pure_eq_error.2 hws⟩

theorem unary_eq_error {s : Sign} {op : UnaryOp} {q : Nat} (hs : s.unary? = some op) :
    Expr.signed r (⟨.sign s, q⟩ :: ts) = .error error ↔ r ts = .error error := by
  simp only [Expr.signed, hs]
  exact bind_pure_eq_error

end Parts

/-! ### The next token -/

theorem head?_append_congr {us us' : List α} (h : us'.head? = us.head?) (ts : List α) :
    (ts ++ us').head? = (ts ++ us).head? := by
  cases ts with
  | nil => exact h
  | cons t ts => rfl

theorem forall_head?_append {P : α → Prop} {ts us us' : List α}
    (hP : ∀ t ∈ (ts ++ us).head?, P t) (h : us'.head? = us.head?) :
    ∀ t ∈ (ts ++ us').head?, P t := by
  rwa [head?_append_congr h ts]

/-- From `ts` on, `us` is left, and a value is read off the tokens before: whatever stands in place
of `us`, if only it begins with the same token. -/
def TakesFront {m : List PlacedToken → Nat}
    (f : (ts : List PlacedToken) → Except SyntaxError (Parsed α (m ts)))
    (ts : List PlacedToken) (x : α) (us : List PlacedToken) : Prop :=
  ∃ taken, ts = taken ++ us ∧ ∀ us', us'.head? = us.head? → Yields (f (taken ++ us')) x us'

/-- What is read, and how far, depends on the tokens that are taken and on the one behind them. -/
def Reader.LooksAhead (r : Reader α) : Prop := ∀ ⦃ts x us⦄, r.Reads ts x us → TakesFront r ts x us

namespace Reader.LooksAhead

variable {r : Reader Expr} {l : Level} {n : Nat}

theorem continued (h : r.LooksAhead) {lhs e : Expr} {ts us : List PlacedToken}
    (hy : Yields (l.continued r lhs ts) e us) : TakesFront (l.continued r lhs) ts e us := by
  match ts with
  | [] =>
    obtain ⟨rfl, rfl⟩ := (continued_of_none (by simp)).1 hy
    refine ⟨[], rfl, fun us' hus' => (continued_of_none ?_).2 ⟨rfl, rfl⟩⟩
    simp [hus']
  | t :: ts =>
    cases ht : l.operator? t with
    | none =>
      obtain ⟨rfl, rfl⟩ := (continued_of_none (by simpa using ht)).1 hy
      refine ⟨[], rfl, fun us' hus' => (continued_of_none ?_).2 ⟨rfl, rfl⟩⟩
      simpa [hus'] using ht
    | some op =>
      obtain ⟨b, vs, hb, hvs⟩ := (continued_of_some ht).1 hy
      have hlt := hb.length_lt
      obtain ⟨others, rfl, hothers⟩ := continued h hvs
      obtain ⟨operand, rfl, hoperand⟩ := h hb
      refine ⟨t :: (operand ++ others), by simp, fun us' hus' => ?_⟩
      rw [List.cons_append, List.append_assoc]
      exact (continued_of_some ht).2
        ⟨b, _, hoperand _ (head?_append_congr hus' others), hothers us' hus'⟩
termination_by ts.length

theorem level (h : r.LooksAhead) : (l.reader r).LooksAhead := by
  intro ts e us hr
  obtain ⟨a, vs, ha, hvs⟩ := reads_level.1 hr
  obtain ⟨others, rfl, hothers⟩ := h.continued hvs
  obtain ⟨first, rfl, hfirst⟩ := h ha
  refine ⟨first ++ others, (List.append_assoc ..).symm, fun us' hus' => ?_⟩
  rw [List.append_assoc]
  exact reads_level.2 ⟨a, _, hfirst _ (head?_append_congr hus' others), hothers us' hus'⟩

theorem levels (h : r.LooksAhead) : (ls : List Level) → LooksAhead (ls.foldr Level.reader r)
  | [] => h
  | _ :: ls => (h.levels ls).level

theorem operation (h : r.LooksAhead) : (Expr.operation r).LooksAhead := h.levels Level.all

theorem arguments (h : r.LooksAhead) {ts us : List PlacedToken} {es : List Expr}
    (hr : Reads (Expr.arguments r) ts es us) : TakesFront (Expr.arguments r) ts es us := by
  by_cases hts : ∃ q ws, ts = ⟨.rightParen, q⟩ :: ws
  · obtain ⟨q, ws, rfl⟩ := hts
    obtain ⟨rfl, rfl⟩ := reads_arguments_rightParen.1 hr
    exact ⟨[⟨.rightParen, q⟩], rfl, fun us' _ => reads_arguments_rightParen.2 ⟨rfl, rfl⟩⟩
  · have hhead := head?_token_ne hts
    obtain ⟨e, vs, he, hvs⟩ := (reads_arguments hhead).1 hr
    have hlt := he.length_lt
    obtain ⟨first, rfl, hfirst⟩ := h he
    rcases hvs with ⟨q, ws, es', rfl, hes', rfl⟩ | ⟨q, rfl, rfl⟩
    · have hlt' : ws.length < (first ++ ⟨.comma, q⟩ :: ws).length := Nat.lt_of_succ_lt hlt
      obtain ⟨others, rfl, hothers⟩ := arguments h hes'
      refine ⟨first ++ ⟨.comma, q⟩ :: others, by simp, fun us' hus' => ?_⟩
      rw [List.append_assoc]
      refine (reads_arguments ?_).2 ⟨e, ⟨.comma, q⟩ :: (others ++ us'), hfirst _ rfl,
        .inl ⟨q, others ++ us', es', rfl, hothers us' hus', rfl⟩⟩
      exact forall_head?_append hhead rfl
    · refine ⟨first ++ [⟨.rightParen, q⟩], by simp, fun us' _ => ?_⟩
      rw [List.append_assoc]
      refine (reads_arguments ?_).2 ⟨e, ⟨.rightParen, q⟩ :: us', hfirst _ rfl, .inr ⟨q, rfl, rfl⟩⟩
      exact forall_head?_append hhead rfl
termination_by ts.length

theorem primary (h : r.LooksAhead) : LooksAhead (Expr.primary r) := by
  intro ts e us hr
  match ts with
  | [] => exact absurd hr (not_reads_primary (by simp))
  | ⟨.number x, q⟩ :: ts =>
    obtain ⟨rfl, rfl⟩ := reads_number.1 hr
    exact ⟨[⟨.number x, q⟩], rfl, fun us' _ => reads_number.2 ⟨rfl, rfl⟩⟩
  | ⟨.name name, q⟩ :: ts =>
    by_cases hts : ∃ q' ws, ts = ⟨.leftParen, q'⟩ :: ws
    · obtain ⟨q', ws, rfl⟩ := hts
      obtain ⟨es, hes, rfl⟩ := reads_call.1 hr
      obtain ⟨taken, rfl, htaken⟩ := h.arguments hes
      exact ⟨⟨.name name, q⟩ :: ⟨.leftParen, q'⟩ :: taken, rfl,
        fun us' hus' => reads_call.2 ⟨es, htaken us' hus', rfl⟩⟩
    · have hhead := head?_token_ne hts
      obtain ⟨rfl, rfl⟩ := (reads_var hhead).1 hr
      refine ⟨[⟨.name name, q⟩], rfl, fun us' hus' => (reads_var ?_).2 ⟨rfl, rfl⟩⟩
      exact hus' ▸ hhead
  | ⟨.leftParen, q⟩ :: ts =>
    obtain ⟨q', he⟩ := reads_paren.1 hr
    obtain ⟨taken, rfl, htaken⟩ := h he
    refine ⟨⟨.leftParen, q⟩ :: taken ++ [⟨.rightParen, q'⟩], by simp, fun us' _ => ?_⟩
    rw [List.append_assoc]
    exact reads_paren.2 ⟨q', htaken _ rfl⟩
  | ⟨.sign s, q⟩ :: ts | ⟨.rightParen, q⟩ :: ts | ⟨.comma, q⟩ :: ts =>
    exact absurd hr (not_reads_primary (by simp [Begins]))

theorem power (h : r.LooksAhead) : LooksAhead (Expr.power r) := by
  intro ts e us hr
  obtain ⟨b, vs, hb, hvs⟩ := reads_power.1 hr
  obtain ⟨base, rfl, hbase⟩ := h.operation.primary hb
  rcases hvs with ⟨q, ws, x, rfl, hx, rfl⟩ | ⟨hvs, rfl, rfl⟩
  · obtain ⟨exponent, rfl, hexponent⟩ := h hx
    refine ⟨base ++ ⟨.sign .doubleStar, q⟩ :: exponent, by simp, fun us' hus' => ?_⟩
    rw [List.append_assoc]
    exact reads_power.2 ⟨b, _, hbase _ rfl, .inl ⟨q, _, x, rfl, hexponent us' hus', rfl⟩⟩
  · refine ⟨base, rfl, fun us' hus' => reads_power.2 ⟨_, us', hbase us' hus', .inr ⟨?_, rfl, rfl⟩⟩⟩
    exact hus' ▸ hvs

theorem signed (h : r.LooksAhead) : LooksAhead (Expr.signed r) := by
  intro ts e us hr
  rcases unary_cases ts with ⟨s, op, q, vs, rfl, hs⟩ | hunsigned
  · obtain ⟨x, hx, rfl⟩ := (reads_unary hs).1 hr
    obtain ⟨taken, rfl, htaken⟩ := h hx
    exact ⟨⟨.sign s, q⟩ :: taken, rfl,
      fun us' hus' => (reads_unary hs).2 ⟨x, htaken us' hus', rfl⟩⟩
  · obtain ⟨taken, rfl, htaken⟩ := h.power ((reads_unsigned hunsigned).1 hr)
    refine ⟨taken, rfl, fun us' hus' => (reads_unsigned ?_).2 (htaken us' hus')⟩
    exact forall_head?_append hunsigned hus'

end Reader.LooksAhead

theorem Expr.looksAhead_operand : (n : Nat) → Reader.LooksAhead (operand n)
  | 0 => fun _ _ _ hr => absurd hr not_yields_error
  | n + 1 => (looksAhead_operand n).signed

/-! ### Viable tokens -/

/-- Some phrase that nests at most `n` levels deep begins with the tokens, and goes on. -/
def Phrase.Viable (p : Phrase) (n : Nat) (ts : List PlacedToken) : Prop :=
  ∃ (d : Derivation p) (k : Token) (ks : List Token), d.nesting ≤ n ∧
    d.tokens = ts.map (·.token) ++ k :: ks

/-- Some arguments that nest at most `n` levels deep begin, with the parenthesis that closes them,
with the tokens, and go on. -/
def Phrase.ViableArguments (n : Nat) (ts : List PlacedToken) : Prop :=
  ∃ (args : Arguments) (k : Token) (ks : List Token), args.nesting ≤ n ∧
    args.tokens ++ [.rightParen] = ts.map (·.token) ++ k :: ks

namespace Phrase

variable {l : Level} {ls : List Level} {n q : Nat} {s : Sign} {us : List PlacedToken}

namespace Viable

theorem operand (h : signed.Viable n us) : (operation []).Viable n us := by
  obtain ⟨d, k, ks, hn, hd⟩ := h
  exact ⟨.operand d, k, ks, hn, hd⟩

theorem tighter (h : (operation ls).Viable n us) : (operation (l :: ls)).Viable n us := by
  obtain ⟨d, k, ks, hn, hd⟩ := h
  exact ⟨.tighter d, k, ks, hn, hd⟩

theorem base (h : primary.Viable n us) : power.Viable n us := by
  obtain ⟨d, k, ks, hn, hd⟩ := h
  exact ⟨.base d, k, ks, hn, hd⟩

theorem unsigned (h : power.Viable n us) : signed.Viable n us := by
  obtain ⟨d, k, ks, hn, hd⟩ := h
  exact ⟨.unsigned d, k, ks, hn, hd⟩

theorem binary {d : Derivation (operation (l :: ls))} {op : BinaryOp} {lhs : List PlacedToken}
    {t : PlacedToken} (hd : d.tokens = lhs.map (·.token)) (hn : d.nesting ≤ n)
    (ht : t.token = .sign s) (hs : s.binary? = some op) (hl : op.level? = some l)
    (h : (operation ls).Viable n us) : (operation (l :: ls)).Viable n (lhs ++ t :: us) := by
  obtain ⟨d', k, ks, hn', hd'⟩ := h
  refine ⟨.binary d s op hs hl d', k, ks, Nat.max_le.2 ⟨hn, hn'⟩, ?_⟩
  simp [Derivation.tokens, hd, hd', ht]

theorem exponent {d : Derivation primary} {base : List PlacedToken}
    (hd : d.tokens = base.map (·.token)) (hn : d.nesting ≤ n + 1) (h : signed.Viable n us) :
    power.Viable (n + 1) (base ++ ⟨.sign .doubleStar, q⟩ :: us) := by
  obtain ⟨d', k, ks, hn', hd'⟩ := h
  refine ⟨.exponent d d', k, ks, ?_, ?_⟩
  · rw [Derivation.nesting]
    omega
  · simp [Derivation.tokens, hd, hd']

theorem unary {op : UnaryOp} (hs : s.unary? = some op) (h : signed.Viable n us) :
    signed.Viable (n + 1) (⟨.sign s, q⟩ :: us) := by
  obtain ⟨d, k, ks, hn, hd⟩ := h
  refine ⟨.unary s op hs d, k, ks, ?_, ?_⟩
  · rw [Derivation.nesting]
    omega
  · simp [Derivation.tokens, hd]

theorem paren (h : expression.Viable n us) : primary.Viable (n + 1) (⟨.leftParen, q⟩ :: us) := by
  obtain ⟨d, k, ks, hn, hd⟩ := h
  refine ⟨.paren d, k, ks ++ [.rightParen], ?_, ?_⟩
  · rw [Derivation.nesting]
    omega
  · simp [Derivation.tokens, hd]

/-- A parenthesis behind a whole expression is still to come. -/
theorem unclosed {d : Derivation expression} (hd : d.tokens = us.map (·.token))
    (hn : d.nesting ≤ n) : primary.Viable (n + 1) (⟨.leftParen, q⟩ :: us) := by
  refine ⟨.paren d, .rightParen, [], ?_, ?_⟩
  · rw [Derivation.nesting]
    omega
  · simp [Derivation.tokens, hd]

theorem call {name : String} {q' : Nat} (h : ViableArguments n us) :
    primary.Viable (n + 1) (⟨.name name, q⟩ :: ⟨.leftParen, q'⟩ :: us) := by
  obtain ⟨args, k, ks, hn, hargs⟩ := h
  refine ⟨.call name args, k, ks, ?_, ?_⟩
  · rw [Derivation.nesting]
    omega
  · simp [Derivation.tokens, hargs]

end Viable

namespace ViableArguments

theorem last (h : expression.Viable n us) : ViableArguments n us := by
  obtain ⟨d, k, ks, hn, hd⟩ := h
  refine ⟨.last d, k, ks ++ [.rightParen], hn, ?_⟩
  simp [Arguments.tokens, hd]

theorem unclosed {d : Derivation expression} (hd : d.tokens = us.map (·.token))
    (hn : d.nesting ≤ n) : ViableArguments n us := by
  refine ⟨.last d, .rightParen, [], hn, ?_⟩
  simp [Arguments.tokens, hd]

theorem more {d : Derivation expression} {first : List PlacedToken}
    (hd : d.tokens = first.map (·.token)) (hn : d.nesting ≤ n) (h : ViableArguments n us) :
    ViableArguments n (first ++ ⟨.comma, q⟩ :: us) := by
  obtain ⟨args, k, ks, hn', hargs⟩ := h
  refine ⟨.more d args, k, ks, Nat.max_le.2 ⟨hn, hn'⟩, ?_⟩
  simp [Arguments.tokens, hd, hargs]

end ViableArguments

end Phrase

/-! ### Where a reading fails -/

/-- A reading of `ts` fails at `next`, behind viable tokens, and whatever comes after `next`. -/
def StopsBehind {m : List PlacedToken → Nat} (viable : List PlacedToken → Prop)
    (f : (ts : List PlacedToken) → Except SyntaxError (Parsed α (m ts)))
    (ts : List PlacedToken) (next : Option PlacedToken) : Prop :=
  ∃ before rest, ts = before ++ rest ∧ rest.head? = next ∧ viable before ∧
    ∀ rest', rest'.head? = next → f (before ++ rest') = .error (.unexpected next)

namespace StopsBehind

variable {m m' : List PlacedToken → Nat}
  {f : (ts : List PlacedToken) → Except SyntaxError (Parsed α (m ts))}
  {g : (ts : List PlacedToken) → Except SyntaxError (Parsed β (m' ts))}
  {viable viable' : List PlacedToken → Prop} {taken ts : List PlacedToken}
  {next : Option PlacedToken}

/-- A reading fails at the first token that is left. -/
theorem here (hviable : viable taken)
    (hf : ∀ ts', ts'.head? = ts.head? → f (taken ++ ts') = .error (.unexpected ts.head?)) :
    StopsBehind viable f (taken ++ ts) ts.head? :=
  ⟨taken, ts, rfl, rfl, hviable, hf⟩

/-- A reading fails with a part of it, which comes behind tokens that were taken. -/
theorem within (h : StopsBehind viable' g ts next) (taken : List PlacedToken)
    (hviable : ∀ us, viable' us → viable (taken ++ us))
    (hf : ∀ ts', ts'.head? = ts.head? → g ts' = .error (.unexpected next) →
      f (taken ++ ts') = .error (.unexpected next)) :
    StopsBehind viable f (taken ++ ts) next := by
  obtain ⟨before, rest, rfl, rfl, hbefore, hg⟩ := h
  refine ⟨taken ++ before, rest, (List.append_assoc ..).symm, rfl, hviable before hbefore, ?_⟩
  intro rest' hrest'
  rw [List.append_assoc]
  exact hf _ (head?_append_congr hrest' before) (hg rest' hrest')

end StopsBehind

/-- A reader that does not read a phrase, and not since it nests too deep, fails as early as it can
be known that the tokens begin no phrase. -/
def Reader.StopsEarliest (r : Reader Expr) (p : Phrase) (n : Nat) : Prop :=
  ∀ ⦃ts next⦄, r ts = .error (.unexpected next) → StopsBehind (p.Viable n) r ts next

namespace Reader.StopsEarliest

variable {r : Reader Expr} {l : Level} {ls : List Level} {n : Nat} {next : Option PlacedToken}

/-- What is read is a phrase, and the same phrase in front of other tokens. -/
theorem exists_taken {p : Phrase} (hp : r.Parses p n) (ha : r.LooksAhead)
    {ts us : List PlacedToken} {e : Expr} (hr : r.Reads ts e us) :
    ∃ (taken : List PlacedToken) (d : Derivation p), ts = taken ++ us ∧
      d.tokens = taken.map (·.token) ∧ d.nesting ≤ n ∧
      ∀ us', us'.head? = us.head? → r.Reads (taken ++ us') e us' := by
  obtain ⟨taken, rfl, htaken⟩ := ha hr
  obtain ⟨d, hd, -, hn⟩ := hp.sound hr
  have htokens := hd.map_token
  rw [List.map_append] at htokens
  exact ⟨taken, d, rfl, (List.append_cancel_right htokens).symm, hn, htaken⟩

/-! ### Operators of one level -/

/-- Reading on from a left operand, of which the tokens `done` are the tokens, fails behind tokens
that go on from `done`. -/
theorem continued (h : r.StopsEarliest (operation ls) n) (hp : r.Parses (operation ls) n)
    (ha : r.LooksAhead) {lhs : Expr} {ts : List PlacedToken} {done : List PlacedToken}
    (d : Derivation (operation (l :: ls))) (hd : d.tokens = done.map (·.token))
    (hn : d.nesting ≤ n) (herror : l.continued r lhs ts = .error (.unexpected next)) :
    StopsBehind (fun before => (operation (l :: ls)).Viable n (done ++ before))
      (l.continued r lhs) ts next := by
  match ts with
  | [] => exact absurd herror (continued_ne_error (by simp))
  | t :: ts =>
    cases ht : l.operator? t with
    | none => exact absurd herror (continued_ne_error (by simpa using ht))
    | some op =>
      obtain ⟨s, hts, hs, hl⟩ := operator?_eq_some.1 ht
      rcases (continued_eq_error ht).1 herror with hr | ⟨b, vs, hb, hvs⟩
      · exact (h hr).within [t] (fun _ => .binary hd hn hts hs hl)
          fun ts' _ hts' => (continued_eq_error ht).2 (.inl hts')
      · have hlt := hb.length_lt
        obtain ⟨operand, d', rfl, hd', hn', hoperand⟩ := exists_taken hp ha hb
        have hjoined : (Derivation.binary d s op hs hl d').tokens =
            (done ++ t :: operand).map (·.token) := by
          simp [Derivation.tokens, hd, hd', hts]
        refine (continued h hp ha _ hjoined (Nat.max_le.2 ⟨hn, hn'⟩) hvs).within
          (t :: operand) ?_ fun ts' hts' hvs' => ?_
        · intro us hus
          rwa [List.append_assoc] at hus
        · exact (continued_eq_error ht).2 (.inr ⟨b, ts', hoperand ts' hts', hvs'⟩)
termination_by ts.length

theorem level (h : r.StopsEarliest (operation ls) n) (hp : r.Parses (operation ls) n)
    (ha : r.LooksAhead) : (l.reader r).StopsEarliest (operation (l :: ls)) n := by
  intro ts next herror
  rcases level_eq_error.1 herror with hr | ⟨a, vs, hfirst, hvs⟩
  · exact (h hr).within [] (fun _ => .tighter) fun ts' _ hts' => level_eq_error.2 (.inl hts')
  · obtain ⟨first, d, rfl, hd, hn, hfirst'⟩ := exists_taken hp ha hfirst
    have hd' : (Derivation.tighter d : Derivation (operation (l :: ls))).tokens =
        first.map (·.token) := by rw [Derivation.tokens, hd]
    refine (continued h hp ha _ hd' (by rwa [Derivation.nesting]) hvs).within first
      (fun us hus => hus) fun ts' hts' hvs' => ?_
    exact level_eq_error.2 (.inr ⟨a, ts', hfirst' ts' hts', hvs'⟩)

theorem levels (h : r.StopsEarliest signed n) (hp : r.Parses signed n) (ha : r.LooksAhead) :
    {ls : List Level} → ls.Nodup → StopsEarliest (ls.foldr Level.reader r) (operation ls) n
  | [], _ => fun _ _ herror => (h herror).within [] (fun _ => .operand) fun _ _ hts' => hts'
  | _ :: ls, hls => (h.levels hp ha hls.of_cons).level (hp.levels hls.of_cons) (ha.levels ls)

/-! ### Operands -/

theorem arguments (h : r.StopsEarliest expression n) (hp : r.Parses expression n)
    (ha : r.LooksAhead) {ts : List PlacedToken}
    (herror : Expr.arguments r ts = .error (.unexpected next)) :
    StopsBehind (ViableArguments n) (Expr.arguments r) ts next := by
  by_cases hts : ∃ q ws, ts = ⟨.rightParen, q⟩ :: ws
  · obtain ⟨q, ws, rfl⟩ := hts
    exact absurd herror arguments_rightParen_ne_error
  · have hhead := head?_token_ne hts
    rcases (arguments_eq_error hhead).1 herror with hr | ⟨e, vs, he, hvs⟩
    · refine (h hr).within [] (fun _ => .last) fun ts' hts' hr' => ?_
      exact (arguments_eq_error (hts' ▸ hhead)).2 (.inl hr')
    · have hlt := he.length_lt
      obtain ⟨first, d, rfl, hd, hn, hfirst⟩ := exists_taken hp ha he
      rcases hvs with ⟨q, ws, rfl, hws⟩ | ⟨hvs, hnext⟩
      · have hlt' : ws.length < (first ++ ⟨.comma, q⟩ :: ws).length := Nat.lt_of_succ_lt hlt
        rw [List.append_cons]
        refine (arguments h hp ha hws).within (first ++ [⟨.comma, q⟩]) (fun us hus => ?_)
          fun ts' _ hts' => ?_
        · rw [← List.append_cons]
          exact .more hd hn hus
        · rw [← List.append_cons]
          refine (arguments_eq_error ?_).2
            (.inr ⟨e, ⟨.comma, q⟩ :: ts', hfirst _ rfl, .inl ⟨q, ts', rfl, hts'⟩⟩)
          exact forall_head?_append hhead rfl
      · obtain rfl := SyntaxError.unexpected_inj.1 hnext
        refine .here (.unclosed hd hn) fun ts' hts' => ?_
        exact (arguments_eq_error (forall_head?_append hhead hts')).2
          (.inr ⟨e, ts', hfirst ts' hts', .inr ⟨hts' ▸ hvs, by rw [hts']⟩⟩)
termination_by ts.length

theorem primary (h : StopsEarliest (Expr.operation r) expression n)
    (hp : Parses (Expr.operation r) expression n) (ha : LooksAhead (Expr.operation r)) :
    StopsEarliest (Expr.primary (Expr.operation r)) primary (n + 1) := by
  intro ts next herror
  by_cases hbegins : ∃ t ∈ ts.head?, Phrase.primary.Begins t.token
  · obtain ⟨⟨k, q⟩, ht, hk⟩ := hbegins
    obtain ⟨ts, rfl⟩ := List.head?_eq_some_iff.1 ht
    cases k with
    | number x => exact absurd herror number_ne_error
    | name name =>
      by_cases hts : ∃ q' ws, ts = ⟨.leftParen, q'⟩ :: ws
      · obtain ⟨q', ws, rfl⟩ := hts
        exact (arguments h hp ha (call_eq_error.1 herror)).within
          [⟨.name name, q⟩, ⟨.leftParen, q'⟩] (fun _ => .call)
          fun ts' _ hts' => call_eq_error.2 hts'
      · exact absurd herror (var_ne_error (head?_token_ne hts))
    | leftParen =>
      rcases paren_eq_error.1 herror with hr | ⟨e, vs, he, hvs, hnext⟩
      · exact (h hr).within [⟨.leftParen, q⟩] (fun _ => .paren)
          fun ts' _ hts' => paren_eq_error.2 (.inl hts')
      · obtain ⟨inner, d, rfl, hd, hn, hinner⟩ := exists_taken hp ha he
        obtain rfl := SyntaxError.unexpected_inj.1 hnext
        rw [← List.cons_append]
        refine .here (.unclosed hd hn) fun ts' hts' => ?_
        exact paren_eq_error.2 (.inr ⟨e, ts', hinner ts' hts', hts' ▸ hvs, by rw [hts']⟩)
    | sign _ | rightParen | comma => exact absurd hk id
  · have hno : ∀ t ∈ ts.head?, ¬Phrase.primary.Begins t.token := fun t ht hk => hbegins ⟨t, ht, hk⟩
    rw [primary_eq_error hno] at herror
    obtain rfl := SyntaxError.unexpected_inj.1 (Except.error.inj herror)
    show StopsBehind _ _ ([] ++ ts) ts.head?
    -- any number could have come here
    refine .here ⟨.number 0, .number 0, [], Nat.le_add_left 1 n, rfl⟩ fun ts' hts' => ?_
    rw [← hts']
    exact primary_eq_error (hts' ▸ hno)

theorem power (hprimary : StopsEarliest (Expr.primary (Expr.operation r)) Phrase.primary (n + 1))
    (hp : Parses (Expr.primary (Expr.operation r)) Phrase.primary (n + 1))
    (ha : LooksAhead (Expr.primary (Expr.operation r))) (h : r.StopsEarliest signed n) :
    StopsEarliest (Expr.power r) power (n + 1) := by
  intro ts next herror
  rcases power_eq_error.1 herror with hr | ⟨b, q, ws, hb, hws⟩
  · exact (hprimary hr).within [] (fun _ => .base) fun ts' _ hts' => power_eq_error.2 (.inl hts')
  · obtain ⟨base, d, rfl, hd, hn, hbase⟩ := exists_taken hp ha hb
    rw [List.append_cons]
    refine (h hws).within (base ++ [⟨.sign .doubleStar, q⟩]) (fun us hus => ?_)
      fun ts' _ hts' => ?_
    · rw [← List.append_cons]
      exact .exponent hd hn hus
    · rw [← List.append_cons]
      exact power_eq_error.2 (.inr ⟨b, q, ts', hbase _ rfl, hts'⟩)

theorem signed (hpower : StopsEarliest (Expr.power r) Phrase.power (n + 1))
    (h : r.StopsEarliest Phrase.signed n) : StopsEarliest (Expr.signed r) signed (n + 1) := by
  intro ts next herror
  rcases unary_cases ts with ⟨s, op, q, vs, rfl, hs⟩ | hunsigned
  · exact (h ((unary_eq_error hs).1 herror)).within [⟨.sign s, q⟩] (fun _ => .unary hs)
      fun ts' _ hts' => (unary_eq_error hs).2 hts'
  · rw [signed_eq_power hunsigned] at herror
    refine (hpower herror).within [] (fun _ => .unsigned) fun ts' hts' hpower' => ?_
    rw [List.nil_append, signed_eq_power (hts' ▸ hunsigned)]
    exact hpower'

end Reader.StopsEarliest

namespace Expr

theorem stopsEarliest_operand : (n : Nat) → Reader.StopsEarliest (operand n) Phrase.signed n
  | 0 => by
    -- where no nesting is allowed, nothing is found unexpected
    intro ts next herror
    cases next <;> cases herror
  | n + 1 => by
    have ih := stopsEarliest_operand n
    have hp := (parses_operand n).levels nodup_levels
    have ha := (looksAhead_operand n).operation
    have hoperation := ih.levels (parses_operand n) (looksAhead_operand n) nodup_levels
    exact ((hoperation.primary hp ha).power hp.primary ha.primary ih).signed ih

theorem stopsEarliest_expression (n : Nat) :
    Reader.StopsEarliest (expression n) Phrase.expression n :=
  (stopsEarliest_operand n).levels (parses_operand n) (looksAhead_operand n) nodup_levels

/-! ### Lists of tokens -/

/-- A list of tokens is read as a formula that nests no deeper than allowed. -/
def Accepts (maxDepth : Nat) (ts : List PlacedToken) : Prop := ∃ e, ofTokens maxDepth ts = .ok e

variable {n : Nat} {ts us : List PlacedToken} {t : PlacedToken} {next : Option PlacedToken}

theorem accepts_of_derivation (d : Derivation Phrase.expression) (hd : d.tokens = ts.map (·.token))
    (hn : d.nesting ≤ n) : Accepts n ts :=
  ⟨d.expr, ofTokens_eq_ok_iff_reads.2
    ((parses_expression n).complete d (spells_nil_right.2 hd) hn .nil)⟩

/-- Viable tokens go on to a formula, which has at least one more token. -/
theorem exists_accepts_of_viable (h : Phrase.expression.Viable n ts) :
    ∃ t us, Accepts n (ts ++ t :: us) := by
  obtain ⟨d, k, ks, hn, hd⟩ := h
  refine ⟨⟨k, 0⟩, ks.map (⟨·, 0⟩), accepts_of_derivation d ?_ hn⟩
  simp [hd, Function.comp_def]

theorem ofTokens_eq_error {error : SyntaxError} : ofTokens n ts = .error error ↔
    expression n ts = .error error ∨
      ∃ e t us, (expression n).Reads ts e (t :: us) ∧ error = .unexpectedToken t := by
  unfold ofTokens
  rw [bind_eq_error]
  refine or_congr_right ⟨?_, ?_⟩
  · rintro ⟨⟨e, us, hlt⟩, hp, herror⟩
    cases us with
    | nil => cases herror
    | cons t us =>
      cases herror
      exact ⟨e, t, us, ⟨_, hp, rfl, rfl⟩, rfl⟩
  · rintro ⟨_, t, us, ⟨⟨e, us', hlt⟩, hp, rfl, rfl⟩, rfl⟩
    exact ⟨_, hp, rfl⟩

/-- What is unexpected under one limit makes a formula under none. -/
theorem not_accepts_of_unexpected (h : ofTokens n ts = .error (.unexpected next)) (depth : Nat) :
    ¬Accepts depth ts := by
  rintro ⟨e, he⟩
  rcases Nat.le_total depth n with hle | hle
  · rw [(ofTokens_sameUnless_tooDeep hle ts).eq_of_ok he] at h
    cases h
  · rcases ofTokens_sameUnless_tooDeep hle ts with ⟨_, rfl, hdeep⟩ | heq
    · rw [h] at hdeep
      cases next <;> cases hdeep
    · rw [heq, he] at h
      cases h

/-- A token that is turned away could come next in no formula, and another one, or none, could. -/
theorem earliest_of_unexpectedToken (h : ofTokens n ts = .error (.unexpectedToken t)) :
    ∃ before after, ts = before ++ t :: after ∧
      (∀ depth us, ¬Accepts depth (before ++ t :: us)) ∧ ∃ us, Accepts n (before ++ us) := by
  rcases ofTokens_eq_error.1 h with hread | ⟨e, _, us, hr, heq⟩
  · have hread' : expression n ts = .error (.unexpected (some t)) := hread
    obtain ⟨before, rest, rfl, hnext, hviable, hstops⟩ := stopsEarliest_expression n hread'
    obtain ⟨after, rfl⟩ := List.head?_eq_some_iff.1 hnext
    refine ⟨before, after, rfl, fun depth us => ?_, ?_⟩
    · exact not_accepts_of_unexpected (ofTokens_eq_error.2 (.inl (hstops (t :: us) rfl))) depth
    · obtain ⟨t', us, haccepts⟩ := exists_accepts_of_viable hviable
      exact ⟨t' :: us, haccepts⟩
  · -- the whole expression has been read, and the token comes behind it
    cases heq
    obtain ⟨taken, d, rfl, hd, hn, htaken⟩ := Reader.StopsEarliest.exists_taken
      (parses_expression n) (looksAhead_operand n).operation hr
    refine ⟨taken, us, rfl, fun depth us' => ?_, [], ?_⟩
    · have herror : ofTokens n (taken ++ t :: us') = .error (.unexpected (some t)) :=
        ofTokens_eq_error.2 (.inr ⟨e, t, us', htaken _ rfl, rfl⟩)
      exact not_accepts_of_unexpected herror depth
    · rw [List.append_nil]
      exact accepts_of_derivation d hd hn

/-- A list of tokens that ends too early is no formula, and goes on to one. -/
theorem earliest_of_unexpectedEnd (h : ofTokens n ts = .error .unexpectedEnd) :
    (∀ depth, ¬Accepts depth ts) ∧ ∃ t us, Accepts n (ts ++ t :: us) := by
  have h' : ofTokens n ts = .error (.unexpected none) := h
  refine ⟨not_accepts_of_unexpected h', ?_⟩
  rcases ofTokens_eq_error.1 h' with hread | ⟨_, _, _, -, heq⟩
  · obtain ⟨before, rest, rfl, hnext, hviable, -⟩ := stopsEarliest_expression n hread
    rw [List.head?_eq_none_iff.1 hnext, List.append_nil]
    exact exists_accepts_of_viable hviable
  · cases heq

end Expr

namespace Formula

/-- What is said of a list of tokens that is no formula is said of the earliest token. -/
structure RejectsEarliest (limits : ParseLimits) (ts : List PlacedToken) : Prop where
  /-- The token that is named, by its text and its position, comes next in no formula, however
  deeply nested. The tokens before it go on to a formula within the limit, or are one. -/
  unexpectedToken : ∀ found position,
    (Expr.ofTokens limits.maxDepth ts).mapError (syntaxRejection limits) =
      .error (.unexpectedToken found position) →
    ∃ before t after, ts = before ++ t :: after ∧ found = t.token.describe ∧
      position = t.position ∧ (∀ depth us, ¬Expr.Accepts depth (before ++ t :: us)) ∧
      ∃ us, Expr.Accepts limits.maxDepth (before ++ us)
  /-- A list that ends too early is no formula itself, and goes on to one within the limit. -/
  unexpectedEnd :
    (Expr.ofTokens limits.maxDepth ts).mapError (syntaxRejection limits) = .error .unexpectedEnd →
    (∀ depth, ¬Expr.Accepts depth ts) ∧ ∃ t us, Expr.Accepts limits.maxDepth (ts ++ t :: us)

/-- Every list of tokens that is turned away, and not since it nests too deep, is turned away at the
earliest token. -/
theorem rejectsEarliest (limits : ParseLimits) (ts : List PlacedToken) :
    RejectsEarliest limits ts where
  unexpectedToken found position h := by
    obtain ⟨error, herror, hwording⟩ := mapError_eq_error.1 h
    cases error with
    | tooDeep => cases hwording
    | unexpectedEnd => cases hwording
    | unexpectedToken t =>
      cases hwording
      obtain ⟨before, after, hts, hdead, hviable⟩ := Expr.earliest_of_unexpectedToken herror
      exact ⟨before, t, after, hts, rfl, rfl, hdead, hviable⟩
  unexpectedEnd h := by
    obtain ⟨error, herror, hwording⟩ := mapError_eq_error.1 h
    cases error with
    | tooDeep => cases hwording
    | unexpectedToken t => cases hwording
    | unexpectedEnd => exact Expr.earliest_of_unexpectedEnd herror

/-- The tokens of `max(1 SPEED`. -/
def unseparated : List PlacedToken :=
  [⟨.name "max", 0⟩, ⟨.leftParen, 3⟩, ⟨.number 1, 4⟩, ⟨.name "SPEED", 6⟩]

/-- The second argument is the token that comes next in no formula. Without it the tokens end too
early, and go on to a formula on the second level. -/
theorem rejectsEarliest_unseparated :
    ((Expr.ofTokens 2 unseparated).mapError (syntaxRejection { maxDepth := 2 }) =
        .error (.unexpectedToken "name `SPEED`" 6) ∧
      ∃ before t after, unseparated = before ++ t :: after ∧
        "name `SPEED`" = t.token.describe ∧ 6 = t.position ∧
        (∀ depth us, ¬Expr.Accepts depth (before ++ t :: us)) ∧
        ∃ us, Expr.Accepts 2 (before ++ us)) ∧
    (Expr.ofTokens 2 (unseparated.take 3)).mapError (syntaxRejection { maxDepth := 2 }) =
        .error .unexpectedEnd ∧
      (∀ depth, ¬Expr.Accepts depth (unseparated.take 3)) ∧
      ∃ t us, Expr.Accepts 2 (unseparated.take 3 ++ t :: us) := by
  have htoken : (Expr.ofTokens 2 unseparated).mapError (syntaxRejection { maxDepth := 2 }) =
      .error (.unexpectedToken "name `SPEED`" 6) := by decide +kernel
  have hend : (Expr.ofTokens 2 (unseparated.take 3)).mapError
      (syntaxRejection { maxDepth := 2 }) = .error .unexpectedEnd := by decide +kernel
  refine ⟨⟨htoken, ?_⟩, hend, ?_⟩
  · exact (rejectsEarliest { maxDepth := 2 } unseparated).unexpectedToken "name `SPEED`" 6 htoken
  · exact (rejectsEarliest { maxDepth := 2 } (unseparated.take 3)).unexpectedEnd hend

end Formula

end CharacterSheet
