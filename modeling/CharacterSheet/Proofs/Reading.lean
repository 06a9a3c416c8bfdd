import CharacterSheet.Formula.Expr.Reader
import CharacterSheet.Proofs.Unambiguity

/-!
# The reader accepts the grammar

The reader of depth `n` finds the tree of every derivation that nests at most `n` levels deep, and
nothing else. For each part of the reader, one lemma says what it takes for that part to read a
value off some tokens; what it reads, and what it is sure to read, then follow phrase by phrase, in
the order in which the grammar builds phrases from tighter ones.

* `Yields`, `Reader.Reads` — reading a value off some tokens, with the tokens left behind it;
* `Spells` — some placed tokens are given tokens followed by others;
* `Reader.Parses` — a reader reads the phrases of a kind, up to a nesting;
* `ofTokens_eq_ok_iff_derivation` — the trees of lists of tokens are those of their derivations, of
  which there is at most one.
-/

namespace CharacterSheet

open Phrase

variable {α β : Type}

/-! ### What a reading yields -/

/-- A reading succeeds with a value, and leaves some tokens behind it. -/
def Yields {m : Nat} (result : Except SyntaxError (Parsed α m)) (x : α) (us : List PlacedToken) :
    Prop :=
  ∃ p, result = .ok p ∧ p.value = x ∧ p.rest = us

/-- A reader reads a value off the front of `ts` and leaves `us`. -/
def Reader.Reads (r : Reader α) (ts : List PlacedToken) (x : α) (us : List PlacedToken) : Prop :=
  Yields (r ts) x us

section Yields

variable {m n : Nat} {x : α} {us : List PlacedToken}

@[simp] theorem yields_ok {p : Parsed α m} : Yields (.ok p) x us ↔ p.value = x ∧ p.rest = us := by
  simp [Yields]

@[simp] theorem not_yields_error {error : SyntaxError} :
    ¬Yields (.error error : Except SyntaxError (Parsed α m)) x us := by
  simp [Yields]

theorem yields_bind {γ : Type} {result : Except SyntaxError γ}
    {f : γ → Except SyntaxError (Parsed α m)} :
    Yields (result >>= f) x us ↔ ∃ p, result = .ok p ∧ Yields (f p) x us := by
  cases result with
  | error error => simp [bind, Except.bind, Yields]
  | ok p => simp [bind, Except.bind]

/-- What comes after a reading depends on its value and the tokens it leaves only. -/
theorem exists_eq_ok_iff {result : Except SyntaxError (Parsed β m)}
    {P : β → List PlacedToken → Prop} :
    (∃ p, result = .ok p ∧ P p.value p.rest) ↔ ∃ y vs, Yields result y vs ∧ P y vs := by
  constructor
  · rintro ⟨p, hp, h⟩
    exact ⟨p.value, p.rest, ⟨p, hp, rfl, rfl⟩, h⟩
  · rintro ⟨_, _, ⟨p, hp, rfl, rfl⟩, h⟩
    exact ⟨p, hp, h⟩

@[simp] theorem yields_weaken {result : Except SyntaxError (Parsed α m)} {h : m ≤ n} :
    Yields (result >>= fun p => pure (p.weaken h)) x us ↔ Yields result x us := by
  rw [yields_bind]
  exact exists_congr fun p => and_congr_right fun _ => yields_ok

@[simp] theorem yields_map_weaken {β : Type} {result : Except SyntaxError (Parsed β m)}
    {f : β → α} {h : m ≤ n} :
    Yields (result >>= fun p => pure ((p.map f).weaken h)) x us ↔
      ∃ y, Yields result y us ∧ f y = x := by
  rw [yields_bind]
  constructor
  · rintro ⟨p, hp, hx⟩
    obtain ⟨hx, hus⟩ := yields_ok.1 hx
    exact ⟨p.value, ⟨p, hp, rfl, hus⟩, hx⟩
  · rintro ⟨y, ⟨p, hp, rfl, hus⟩, hx⟩
    exact ⟨p, hp, yields_ok.2 ⟨hx, hus⟩⟩

end Yields

/-! ### The parts of the reader -/

section Parts

variable {r : Reader Expr} {l : Level} {ts us : List PlacedToken} {t : PlacedToken} {e lhs : Expr}

theorem operator?_eq_some {op : BinaryOp} : l.operator? t = some op ↔
    ∃ s, t.token = .sign s ∧ s.binary? = some op ∧ op.level? = some l := by
  unfold Level.operator?
  cases ht : t.token <;> simp [Option.filter_eq_some_iff]

theorem continued_of_none (h : ∀ t ∈ ts.head?, l.operator? t = none) :
    Yields (l.continued r lhs ts) e us ↔ e = lhs ∧ us = ts := by
  cases ts with
  | nil => simp [Level.continued, eq_comm]
  | cons t ts =>
    have ht : l.operator? t = none := h t rfl
    rw [Level.continued, ht]
    simp [eq_comm]

theorem continued_of_some {op : BinaryOp} (h : l.operator? t = some op) :
    Yields (l.continued r lhs (t :: ts)) e us ↔
      ∃ b vs, r.Reads ts b vs ∧ Yields (l.continued r (.binary op lhs b) vs) e us := by
  rw [Level.continued, h, yields_bind]
  simp only [yields_weaken]
  exact exists_eq_ok_iff (P := fun b vs => Yields (l.continued r (.binary op lhs b) vs) e us)

theorem reads_level : (l.reader r).Reads ts e us ↔
    ∃ a vs, r.Reads ts a vs ∧ Yields (l.continued r a vs) e us := by
  unfold Reader.Reads Level.reader
  rw [yields_bind]
  simp only [yields_weaken]
  exact exists_eq_ok_iff (P := fun a vs => Yields (l.continued r a vs) e us)

theorem reads_arguments_rightParen {q : Nat} {es : List Expr} :
    Reader.Reads (Expr.arguments r) (⟨.rightParen, q⟩ :: ts) es us ↔ es = [] ∧ us = ts := by
  simp [Reader.Reads, Expr.arguments, eq_comm]

theorem reads_arguments {es : List Expr} (h : ∀ t ∈ ts.head?, t.token ≠ .rightParen) :
    Reader.Reads (Expr.arguments r) ts es us ↔ ∃ e vs, r.Reads ts e vs ∧
      ((∃ q ws es', vs = ⟨.comma, q⟩ :: ws ∧ Reader.Reads (Expr.arguments r) ws es' us ∧
        es = e :: es') ∨ ∃ q, vs = ⟨.rightParen, q⟩ :: us ∧ es = [e]) := by
  unfold Reader.Reads
  rw [Expr.arguments, yields_bind]
  · constructor
    · rintro ⟨⟨e, vs, hlt⟩, hp, hy⟩
      refine ⟨e, vs, ⟨_, hp, rfl, rfl⟩, ?_⟩
      dsimp only at hy
      split at hy
      · obtain ⟨es', hes', rfl⟩ := yields_map_weaken.1 hy
        exact .inl ⟨_, _, es', rfl, hes', rfl⟩
      · obtain ⟨rfl, rfl⟩ := yields_ok.1 hy
        exact .inr ⟨_, rfl, rfl⟩
      · exact absurd hy not_yields_error
      · exact absurd hy not_yields_error
    · rintro ⟨_, _, ⟨⟨e, vs, hlt⟩, hp, rfl, rfl⟩, ⟨q, ws, es', rfl, hes', rfl⟩ | ⟨q, rfl, rfl⟩⟩
      · exact ⟨_, hp, yields_map_weaken.2 ⟨es', hes', rfl⟩⟩
      · exact ⟨_, hp, yields_ok.2 ⟨rfl, rfl⟩⟩
  · rintro q ws rfl
    exact h _ rfl rfl

theorem reads_number {x : Float} {q : Nat} :
    Reader.Reads (Expr.primary r) (⟨.number x, q⟩ :: ts) e us ↔ e = .number x ∧ us = ts := by
  simp [Reader.Reads, Expr.primary, eq_comm]

theorem reads_call {name : String} {q q' : Nat} :
    Reader.Reads (Expr.primary r) (⟨.name name, q⟩ :: ⟨.leftParen, q'⟩ :: ts) e us ↔
      ∃ es, Reader.Reads (Expr.arguments r) ts es us ∧ e = .call name es := by
  simp only [Reader.Reads, Expr.primary, yields_map_weaken, eq_comm]

theorem reads_var {name : String} {q : Nat} (h : ∀ t ∈ ts.head?, t.token ≠ .leftParen) :
    Reader.Reads (Expr.primary r) (⟨.name name, q⟩ :: ts) e us ↔ e = .var name ∧ us = ts := by
  unfold Reader.Reads
  rw [Expr.primary]
  · simp [eq_comm]
  · rintro q ws rfl
    exact h _ rfl rfl

theorem reads_paren {q : Nat} :
    Reader.Reads (Expr.primary r) (⟨.leftParen, q⟩ :: ts) e us ↔
      ∃ q', r.Reads ts e (⟨.rightParen, q'⟩ :: us) := by
  unfold Reader.Reads
  rw [Expr.primary, yields_bind]
  constructor
  · rintro ⟨⟨e, vs, hlt⟩, hp, hy⟩
    dsimp only at hy
    split at hy
    · obtain ⟨rfl, rfl⟩ := yields_ok.1 hy
      exact ⟨_, _, hp, rfl, rfl⟩
    · exact absurd hy not_yields_error
    · exact absurd hy not_yields_error
  · rintro ⟨q', ⟨e, vs, hlt⟩, hp, rfl, rfl⟩
    exact ⟨_, hp, yields_ok.2 ⟨rfl, rfl⟩⟩

theorem not_reads_primary (h : ∀ t ∈ ts.head?, ¬primary.Begins t.token) :
    ¬Reader.Reads (Expr.primary r) ts e us := by
  unfold Reader.Reads
  cases ts with
  | nil => simp [Expr.primary]
  | cons t ts =>
    obtain ⟨k, q⟩ := t
    have hk := h _ rfl
    cases k <;> simp_all [Begins, Expr.primary]

/-- A power is a primary with an exponent behind it, or a primary that no `**` follows. -/
theorem reads_power :
    Reader.Reads (Expr.power r) ts e us ↔
      ∃ b vs, Reader.Reads (Expr.primary (Expr.operation r)) ts b vs ∧
        ((∃ q ws x, vs = ⟨.sign .doubleStar, q⟩ :: ws ∧ r.Reads ws x us ∧ e = .binary .pow b x) ∨
          (∀ t ∈ vs.head?, t.token ≠ .sign .doubleStar) ∧ e = b ∧ us = vs) := by
  unfold Reader.Reads
  rw [Expr.power, yields_bind]
  constructor
  · rintro ⟨⟨b, vs, hlt⟩, hp, hy⟩
    refine ⟨b, vs, ⟨_, hp, rfl, rfl⟩, ?_⟩
    dsimp only at hy
    split at hy
    · obtain ⟨x, hx, rfl⟩ := yields_map_weaken.1 hy
      exact .inl ⟨_, _, x, rfl, hx, rfl⟩
    · next hvs =>
      obtain ⟨rfl, rfl⟩ := yields_ok.1 hy
      refine .inr ⟨fun t ht htok => ?_, rfl, rfl⟩
      obtain ⟨ws, rfl⟩ := List.head?_eq_some_iff.1 ht
      obtain ⟨k, q⟩ := t
      obtain rfl : k = .sign .doubleStar := htok
      exact hvs q ws rfl
  · rintro ⟨_, _, ⟨⟨b, vs, hlt⟩, hp, rfl, rfl⟩, ⟨q, ws, x, rfl, hx, rfl⟩ | ⟨hvs, rfl, rfl⟩⟩
    · exact ⟨_, hp, yields_map_weaken.2 ⟨x, hx, rfl⟩⟩
    · refine ⟨_, hp, ?_⟩
      dsimp only
      split
      · exact absurd rfl (hvs _ rfl)
      · exact yields_ok.2 ⟨rfl, rfl⟩

theorem reads_unary {s : Sign} {op : UnaryOp} {q : Nat} (hs : s.unary? = some op) :
    Reader.Reads (Expr.signed r) (⟨.sign s, q⟩ :: ts) e us ↔
      ∃ x, r.Reads ts x us ∧ e = .unary op x := by
  simp only [Reader.Reads, Expr.signed, hs, yields_map_weaken, eq_comm]

theorem signed_eq_power (h : ∀ t ∈ ts.head?, ∀ s, t.token = .sign s → s.unary? = none) :
    Expr.signed r ts = Expr.power r ts := by
  cases ts with
  | nil => rw [Expr.signed]; nofun
  | cons t ts =>
    obtain ⟨k, q⟩ := t
    cases k with
    | sign s =>
      have hs : s.unary? = none := h _ rfl s rfl
      simp only [Expr.signed, hs]
    | _ => rw [Expr.signed]; nofun

theorem reads_unsigned (h : ∀ t ∈ ts.head?, ∀ s, t.token = .sign s → s.unary? = none) :
    Reader.Reads (Expr.signed r) ts e us ↔ Reader.Reads (Expr.power r) ts e us := by
  rw [Reader.Reads, Reader.Reads, signed_eq_power h]

end Parts

/-- Either a sign comes before an operand, or the operand is read as one without signs. -/
theorem unary_cases (ts : List PlacedToken) :
    (∃ s op q vs, ts = ⟨.sign s, q⟩ :: vs ∧ s.unary? = some op) ∨
      ∀ t ∈ ts.head?, ∀ s, t.token = .sign s → s.unary? = none := by
  by_cases hts : ∃ s op q vs, ts = ⟨.sign s, q⟩ :: vs ∧ s.unary? = some op
  · exact .inl hts
  · right
    rintro ⟨k, q⟩ ht s rfl
    obtain ⟨vs, rfl⟩ := List.head?_eq_some_iff.1 ht
    rw [Option.eq_none_iff_forall_ne_some]
    exact fun op hs => hts ⟨s, op, q, vs, rfl, hs⟩

/-! ### Tokens in front of others -/

/-- The placed tokens `ts` are the tokens `ks`, and `us` behind them. -/
def Spells : List Token → List PlacedToken → List PlacedToken → Prop
  | [], ts, us => ts = us
  | k :: ks, ts, us => ∃ q vs, ts = ⟨k, q⟩ :: vs ∧ Spells ks vs us

section Spells

variable {k : Token} {ks ks' : List Token} {ts us : List PlacedToken}

@[simp] theorem spells_nil : Spells [] ts us ↔ ts = us := Iff.rfl

@[simp] theorem spells_cons :
    Spells (k :: ks) ts us ↔ ∃ q vs, ts = ⟨k, q⟩ :: vs ∧ Spells ks vs us := Iff.rfl

theorem spells_append :
    Spells (ks ++ ks') ts us ↔ ∃ vs, Spells ks ts vs ∧ Spells ks' vs us := by
  induction ks generalizing ts with
  | nil => simp
  | cons k ks ih =>
    simp only [List.cons_append, spells_cons, ih]
    constructor
    · rintro ⟨q, vs, rfl, ws, hks, hks'⟩
      exact ⟨ws, ⟨q, vs, rfl, hks⟩, hks'⟩
    · rintro ⟨ws, ⟨q, vs, rfl, hks⟩, hks'⟩
      exact ⟨q, vs, rfl, ws, hks, hks'⟩

theorem Spells.map_token (h : Spells ks ts us) :
    ts.map (·.token) = ks ++ us.map (·.token) := by
  induction ks generalizing ts with
  | nil => rw [spells_nil.1 h, List.nil_append]
  | cons k ks ih =>
    obtain ⟨q, vs, rfl, h⟩ := h
    rw [List.map_cons, ih h, List.cons_append]

theorem spells_nil_right : Spells ks ts [] ↔ ks = ts.map (·.token) := by
  induction ks generalizing ts with
  | nil => cases ts <;> simp
  | cons k ks ih =>
    simp only [spells_cons, ih]
    constructor
    · rintro ⟨q, vs, rfl, rfl⟩
      rfl
    · intro h
      obtain ⟨⟨k', q⟩, vs, rfl, rfl, rfl⟩ := List.map_eq_cons_iff.1 h.symm
      exact ⟨q, vs, rfl, rfl⟩

end Spells

/-- The tokens that stand in `ts` end a phrase. -/
def Phrase.StopsAt (p : Phrase) (ts : List PlacedToken) : Prop := p.Stops (ts.map (·.token))

/-- A reader reads the phrases of a kind that nest at most `n` levels deep. -/
structure Reader.Parses (r : Reader Expr) (p : Phrase) (n : Nat) : Prop where
  /-- What is read is a phrase. -/
  sound : ∀ {ts e us}, r.Reads ts e us → ∃ d : Derivation p, Spells d.tokens ts us ∧ d.expr = e ∧
    d.nesting ≤ n
  /-- A phrase is read, unless it could go on. -/
  complete : ∀ {ts us} (d : Derivation p), Spells d.tokens ts us → d.nesting ≤ n → p.StopsAt us →
    r.Reads ts d.expr us

namespace Reader

variable {r : Reader Expr} {l : Level} {ls : List Level} {n : Nat} {ts us : List PlacedToken}

theorem Reads.length_lt {x : α} {r : Reader α} (h : r.Reads ts x us) : us.length < ts.length := by
  obtain ⟨p, -, -, rfl⟩ := h
  exact p.length_rest

theorem head?_token_ne {k : Token} (h : ¬∃ q vs, ts = ⟨k, q⟩ :: vs) :
    ∀ t ∈ ts.head?, t.token ≠ k := by
  rintro ⟨k', q⟩ ht rfl
  obtain ⟨vs, rfl⟩ := List.head?_eq_some_iff.1 ht
  exact h ⟨q, vs, rfl⟩

/-! ### Operators of one level -/

theorem operator?_eq_none_of_stopsAt (hus : (operation (l :: ls)).StopsAt us) :
    ∀ t ∈ us.head?, l.operator? t = none := by
  intro t ht
  rw [Option.eq_none_iff_forall_ne_some]
  intro op hop
  obtain ⟨s, hts, hs, hl⟩ := operator?_eq_some.1 hop
  obtain ⟨vs, rfl⟩ := List.head?_eq_some_iff.1 ht
  rw [StopsAt, List.map_cons, hts] at hus
  exact not_operation_stops_sign hs hl hus

/-- Reading on from a left operand that was derived gives an operation that is derived. -/
theorem continued_sound (h : r.Parses (operation ls) n) {vs : List PlacedToken} {e : Expr}
    (d : Derivation (operation (l :: ls))) (hd : Spells d.tokens ts vs) (hn : d.nesting ≤ n)
    (hy : Yields (l.continued r d.expr vs) e us) :
    ∃ d' : Derivation (operation (l :: ls)), Spells d'.tokens ts us ∧ d'.expr = e ∧
      d'.nesting ≤ n := by
  match vs with
  | [] =>
    obtain ⟨rfl, rfl⟩ := (continued_of_none (by simp)).1 hy
    exact ⟨d, hd, rfl, hn⟩
  | t :: vs =>
    cases ht : l.operator? t with
    | none =>
      obtain ⟨rfl, rfl⟩ := (continued_of_none (by simpa using ht)).1 hy
      exact ⟨d, hd, rfl, hn⟩
    | some op =>
      obtain ⟨b, ws, hb, hy⟩ := (continued_of_some ht).1 hy
      have hlt := hb.length_lt
      obtain ⟨rhs, hrhs, rfl, hrn⟩ := h.sound hb
      obtain ⟨s, hts, hs, hl⟩ := operator?_eq_some.1 ht
      -- the operation with this operand on its right is the next left operand
      refine continued_sound h (.binary d s op hs hl rhs) ?_ (Nat.max_le.2 ⟨hn, hrn⟩) hy
      obtain ⟨k, q⟩ := t
      obtain rfl : k = .sign s := hts
      exact spells_append.2 ⟨_, hd, q, vs, rfl, hrhs⟩
termination_by vs.length

/-- Reading on takes a chain of operators in front of tokens that do not go on with it. -/
theorem continued_complete (h : r.Parses (operation ls) n) (hmem : l ∉ ls)
    (hus : (operation (l :: ls)).StopsAt us) (steps : List (Step l ls))
    (hn : ∀ s ∈ steps, s.operand.nesting ≤ n) {lhs : Expr}
    (hsteps : Spells (steps.flatMap Step.tokens) ts us) :
    Yields (l.continued r lhs ts)
      (steps.foldl (fun e s => .binary s.op e s.operand.expr) lhs) us := by
  induction steps generalizing lhs ts with
  | nil =>
    obtain rfl : ts = us := hsteps
    exact (continued_of_none (operator?_eq_none_of_stopsAt hus)).2 ⟨rfl, rfl⟩
  | cons s steps ih =>
    obtain ⟨q, vs, rfl, hrest⟩ := hsteps
    obtain ⟨ws, hoperand, hsteps⟩ := spells_append.1 hrest
    have hop : l.operator? ⟨.sign s.sign, q⟩ = some s.op :=
      operator?_eq_some.2 ⟨s.sign, rfl, s.binary_sign, s.level_op⟩
    refine (continued_of_some hop).2 ⟨s.operand.expr, ws, ?_, ?_⟩
    · refine h.complete s.operand hoperand (hn s List.mem_cons_self) ?_
      rw [StopsAt, hsteps.map_token]
      exact stops_steps hmem hus steps
    · exact ih (fun s hs => hn s (List.mem_cons_of_mem _ hs)) hsteps

theorem Parses.level (h : r.Parses (operation ls) n) (hmem : l ∉ ls) :
    (l.reader r).Parses (operation (l :: ls)) n where
  sound := by
    intro ts e us hr
    obtain ⟨a, vs, ha, hy⟩ := reads_level.1 hr
    obtain ⟨d, hd, rfl, hn⟩ := h.sound ha
    exact continued_sound h (.tighter d) hd hn hy
  complete := by
    intro ts us d hd hn hus
    rw [d.tokens_eq_first_append_steps] at hd
    obtain ⟨vs, hfirst, hsteps⟩ := spells_append.1 hd
    refine reads_level.2 ⟨d.first.expr, vs, ?_, ?_⟩
    · refine h.complete d.first hfirst (Nat.le_trans d.nesting_first_le hn) ?_
      rw [StopsAt, hsteps.map_token]
      exact stops_steps hmem hus d.steps
    · rw [d.expr_eq_foldl_steps]
      exact continued_complete h hmem hus d.steps
        (fun s hs => Nat.le_trans (d.nesting_le_of_mem_steps s hs) hn) hsteps

theorem Parses.levels (h : r.Parses signed n) :
    {ls : List Level} → ls.Nodup → Parses (ls.foldr Level.reader r) (operation ls) n
  | [], _ => by
    refine ⟨fun hr => ?_, fun d hd hn hus => ?_⟩
    · obtain ⟨d, hd, he, hn⟩ := h.sound hr
      exact ⟨.operand d, hd, he, hn⟩
    · obtain ⟨d⟩ := d
      exact h.complete d hd hn hus.signed
  | _ :: _, hls => (h.levels hls.of_cons).level (List.nodup_cons.1 hls).1

/-! ### Operands -/

/-- What begins with a phrase begins with a token that the phrase can begin with. -/
theorem begins_of_spells {p : Phrase} (d : Derivation p) {vs : List PlacedToken}
    (h : Spells d.tokens ts vs) : ∀ t ∈ ts.head?, p.Begins t.token := by
  obtain ⟨k, ks, hks, hk⟩ := d.exists_head
  rw [hks] at h
  obtain ⟨q, ws, rfl, -⟩ := h
  rintro t ⟨⟩
  exact hk

/-- No argument begins with the closing parenthesis of its list. -/
theorem ne_rightParen_of_spells (d : Derivation expression) {vs : List PlacedToken}
    (h : Spells d.tokens ts vs) : ∀ t ∈ ts.head?, t.token ≠ .rightParen := by
  intro t ht htok
  have hbegins := begins_of_spells d h t ht
  rw [htok] at hbegins
  exact hbegins

theorem arguments_sound (h : r.Parses expression n) {ts us : List PlacedToken} {es : List Expr}
    (hr : Reads (Expr.arguments r) ts es us) :
    ∃ args : Arguments, Spells (args.tokens ++ [.rightParen]) ts us ∧ args.exprs = es ∧
      args.nesting ≤ n := by
  by_cases hts : ∃ q ws, ts = ⟨.rightParen, q⟩ :: ws
  · obtain ⟨q, ws, rfl⟩ := hts
    obtain ⟨rfl, rfl⟩ := reads_arguments_rightParen.1 hr
    exact ⟨.none, ⟨q, us, rfl, rfl⟩, rfl, Nat.zero_le n⟩
  · obtain ⟨e, vs, he, ⟨q, ws, es', rfl, hes', rfl⟩ | ⟨q, rfl, rfl⟩⟩ :=
      (reads_arguments (head?_token_ne hts)).1 hr
    · have hlt := he.length_lt
      obtain ⟨d, hd, rfl, hn⟩ := h.sound he
      obtain ⟨args, hargs, rfl, hn'⟩ := arguments_sound h hes'
      refine ⟨.more d args, ?_, rfl, Nat.max_le.2 ⟨hn, hn'⟩⟩
      rw [Arguments.tokens, List.append_assoc]
      exact spells_append.2 ⟨_, hd, q, ws, rfl, hargs⟩
    · obtain ⟨d, hd, rfl, hn⟩ := h.sound he
      exact ⟨.last d, spells_append.2 ⟨_, hd, q, us, rfl, rfl⟩, rfl, hn⟩
termination_by ts.length
decreasing_by
  rw [List.length_cons] at hlt
  omega

theorem arguments_complete (h : r.Parses expression n) {ts us : List PlacedToken} :
    (args : Arguments) → Spells (args.tokens ++ [.rightParen]) ts us → args.nesting ≤ n →
    Reads (Expr.arguments r) ts args.exprs us
  | .none, hs, _ => by
    obtain ⟨q, vs, rfl, rfl⟩ := hs
    exact reads_arguments_rightParen.2 ⟨rfl, rfl⟩
  | .last d, hs, hn => by
    obtain ⟨vs, hd, q, ws, rfl, hws⟩ := spells_append.1 hs
    obtain rfl : ws = us := hws
    refine (reads_arguments (ne_rightParen_of_spells d hd)).2 ⟨d.expr, _, ?_, .inr ⟨q, rfl, rfl⟩⟩
    exact h.complete d hd hn .rightParen
  | .more d rest, hs, hn => by
    rw [Arguments.tokens, List.append_assoc] at hs
    obtain ⟨vs, hd, q, ws, rfl, hrest⟩ := spells_append.1 hs
    rw [Arguments.nesting, Nat.max_le] at hn
    refine (reads_arguments (ne_rightParen_of_spells d hd)).2
      ⟨d.expr, _, h.complete d hd hn.1 .comma, .inl ⟨q, ws, rest.exprs, rfl, ?_, rfl⟩⟩
    exact arguments_complete h rest hrest hn.2

theorem Parses.primary (h : Parses (Expr.operation r) expression n) :
    Parses (Expr.primary (Expr.operation r)) primary (n + 1) where
  sound := by
    intro ts e us hr
    match ts with
    | [] => exact absurd hr (not_reads_primary (by simp))
    | ⟨.number x, q⟩ :: ts =>
      obtain ⟨rfl, rfl⟩ := reads_number.1 hr
      exact ⟨.number x, ⟨q, us, rfl, rfl⟩, rfl, Nat.le_add_left 1 n⟩
    | ⟨.name name, q⟩ :: ts =>
      by_cases hts : ∃ q' ws, ts = ⟨.leftParen, q'⟩ :: ws
      · obtain ⟨q', ws, rfl⟩ := hts
        obtain ⟨es, hes, rfl⟩ := reads_call.1 hr
        obtain ⟨args, hargs, rfl, hn⟩ := arguments_sound h hes
        refine ⟨.call name args, ⟨q, _, rfl, q', ws, rfl, hargs⟩, rfl, ?_⟩
        rw [Derivation.nesting]
        omega
      · obtain ⟨rfl, rfl⟩ := (reads_var (head?_token_ne hts)).1 hr
        exact ⟨.var name, ⟨q, us, rfl, rfl⟩, rfl, Nat.le_add_left 1 n⟩
    | ⟨.leftParen, q⟩ :: ts =>
      obtain ⟨q', he⟩ := reads_paren.1 hr
      obtain ⟨d, hd, rfl, hn⟩ := h.sound he
      refine ⟨.paren d, ⟨q, ts, rfl, spells_append.2 ⟨_, hd, q', us, rfl, rfl⟩⟩, rfl, ?_⟩
      rw [Derivation.nesting]
      omega
    | ⟨.sign s, q⟩ :: ts | ⟨.rightParen, q⟩ :: ts | ⟨.comma, q⟩ :: ts =>
      exact absurd hr (not_reads_primary (by simp [Begins]))
  complete := by
    intro ts us d hd hn hus
    cases d with
    | number x =>
      obtain ⟨q, vs, rfl, rfl⟩ := hd
      exact reads_number.2 ⟨rfl, rfl⟩
    | var name =>
      obtain ⟨q, vs, rfl, rfl⟩ := hd
      refine (reads_var fun t ht htok => hus t.token ?_ htok).2 ⟨rfl, rfl⟩
      rw [List.head?_map, ht]
      rfl
    | call name args =>
      obtain ⟨q, vs, rfl, q', ws, rfl, hargs⟩ := hd
      rw [Derivation.nesting] at hn
      exact reads_call.2 ⟨args.exprs, arguments_complete h args hargs (by omega), rfl⟩
    | paren d =>
      obtain ⟨q, vs, rfl, hinner⟩ := hd
      obtain ⟨ws, hd, q', xs, rfl, hxs⟩ := spells_append.1 hinner
      obtain rfl : xs = us := hxs
      rw [Derivation.nesting] at hn
      exact reads_paren.2 ⟨q', h.complete d hd (by omega) .rightParen⟩

theorem Parses.power (hprimary : Parses (Expr.primary (Expr.operation r)) Phrase.primary (n + 1))
    (h : r.Parses signed n) : Parses (Expr.power r) power (n + 1) where
  sound := by
    intro ts e us hr
    obtain ⟨b, vs, hb, ⟨q, ws, x, rfl, hx, rfl⟩ | ⟨-, rfl, rfl⟩⟩ := reads_power.1 hr
    · obtain ⟨d, hd, rfl, hn⟩ := hprimary.sound hb
      obtain ⟨d', hd', rfl, hn'⟩ := h.sound hx
      refine ⟨.exponent d d', spells_append.2 ⟨_, hd, q, ws, rfl, hd'⟩, rfl, ?_⟩
      rw [Derivation.nesting]
      omega
    · obtain ⟨d, hd, rfl, hn⟩ := hprimary.sound hb
      exact ⟨.base d, hd, rfl, hn⟩
  complete := by
    intro ts us d hd hn hus
    cases d with
    | base d =>
      refine reads_power.2 ⟨_, us, hprimary.complete d hd hn hus.primary, .inr ⟨?_, rfl, rfl⟩⟩
      intro t ht htok
      refine hus t.token ?_ (.inr htok)
      rw [List.head?_map, ht]
      rfl
    | exponent b x =>
      obtain ⟨vs, hb, q, ws, rfl, hx⟩ := spells_append.1 hd
      rw [Derivation.nesting] at hn
      refine reads_power.2 ⟨b.expr, _, ?_, .inl ⟨q, ws, x.expr, rfl, ?_, rfl⟩⟩
      · exact hprimary.complete b hb (by omega) primary_stops_doubleStar
      · exact h.complete x hx (by omega) hus

theorem Parses.signed (hpower : Parses (Expr.power r) Phrase.power (n + 1))
    (h : r.Parses Phrase.signed n) : Parses (Expr.signed r) signed (n + 1) where
  sound := by
    intro ts e us hr
    rcases unary_cases ts with ⟨s, op, q, vs, rfl, hs⟩ | hunsigned
    · obtain ⟨x, hx, rfl⟩ := (reads_unary hs).1 hr
      obtain ⟨d, hd, rfl, hn⟩ := h.sound hx
      refine ⟨.unary s op hs d, ⟨q, vs, rfl, hd⟩, rfl, ?_⟩
      rw [Derivation.nesting]
      omega
    · rw [reads_unsigned hunsigned] at hr
      obtain ⟨d, hd, rfl, hn⟩ := hpower.sound hr
      exact ⟨.unsigned d, hd, rfl, hn⟩
  complete := by
    intro ts us d hd hn hus
    cases d with
    | unary s op hs d =>
      obtain ⟨q, vs, rfl, hd⟩ := hd
      rw [Derivation.nesting] at hn
      exact (reads_unary hs).2 ⟨d.expr, h.complete d hd (by omega) hus, rfl⟩
    | unsigned d =>
      refine (reads_unsigned fun t ht s hts => ?_).2 (hpower.complete d hd hn hus)
      have hbegins := begins_of_spells d hd t ht
      rw [hts] at hbegins
      exact absurd hbegins id

end Reader

namespace Expr

/-- The reader of operands reads the operands that nest as deep as it may. -/
theorem parses_operand : (n : Nat) → Reader.Parses (operand n) Phrase.signed n
  | 0 => by
    -- the reader fails, and no derivation is as shallow
    refine ⟨fun hr => ?_, fun d _ hn _ => ?_⟩
    · exact absurd hr not_yields_error
    · exact absurd hn (Nat.not_le_of_gt d.nesting_pos)
  | n + 1 => by
    have ih := parses_operand n
    have hprimary : Reader.Parses (primary (operation (operand n))) Phrase.primary (n + 1) :=
      (ih.levels nodup_levels).primary
    exact (hprimary.power ih).signed ih

/-- The reader of expressions reads the expressions that nest as deep as it may. -/
theorem parses_expression (n : Nat) : Reader.Parses (expression n) Phrase.expression n :=
  (parses_operand n).levels nodup_levels

theorem ofTokens_eq_ok_iff_reads {n : Nat} {ts : List PlacedToken} {e : Expr} :
    ofTokens n ts = .ok e ↔ Reader.Reads (expression n) ts e [] := by
  unfold ofTokens Reader.Reads Yields
  cases h : expression n ts with
  | error error => simp [bind, Except.bind]
  | ok p =>
    obtain ⟨x, us, hlt⟩ := p
    cases us <;> simp [bind, Except.bind, pure, Except.pure, throw, throwThe, MonadExceptOf.throw]

/-- A list of tokens has a tree within a nesting exactly if it has a derivation within that nesting,
and the tree is the tree of the derivation. There is no other derivation of the same tokens. -/
theorem ofTokens_eq_ok_iff_derivation (maxDepth : Nat) (ts : List PlacedToken) :
    (∀ e, ofTokens maxDepth ts = .ok e ↔ ∃ d : Derivation Phrase.expression,
      d.tokens = ts.map (·.token) ∧ d.expr = e ∧ d.nesting ≤ maxDepth) ∧
    Subsingleton {d : Derivation Phrase.expression // d.tokens = ts.map (·.token)} := by
  refine ⟨fun e => ?_, ⟨fun d d' => Subtype.ext (d.1.eq_of_tokens_eq d'.1 (d.2.trans d'.2.symm))⟩⟩
  rw [ofTokens_eq_ok_iff_reads]
  constructor
  · intro hr
    obtain ⟨d, hd, he, hn⟩ := (parses_expression maxDepth).sound hr
    exact ⟨d, spells_nil_right.1 hd, he, hn⟩
  · rintro ⟨d, hd, rfl, hn⟩
    exact (parses_expression maxDepth).complete d (spells_nil_right.2 hd) hn .nil

/-- All operators at once: the levels one inside the other, and grouping to the left on a level. -/
example :
    (ofTokens 3 (([.name "a", .sign .pipe, .name "b", .sign .caret, .name "c", .sign .ampersand,
      .name "d", .sign .doubleLess, .name "e", .sign .doubleGreater, .name "f", .sign .plus,
      .name "g", .sign .minus, .name "h", .sign .star, .name "i", .sign .slash, .name "j",
      .sign .doubleSlash, .name "k", .sign .percent, .sign .minus, .name "l", .sign .doubleStar,
      .name "m"] : List Token).map fun token => ⟨token, 0⟩)).toOption =
    some (.binary .bitOr (.var "a") <| .binary .bitXor (.var "b") <| .binary .bitAnd (.var "c") <|
      .binary .shiftRight (.binary .shiftLeft (.var "d") (.var "e")) <|
        .binary .sub (.binary .add (.var "f") (.var "g")) <|
          .binary .mod
            (.binary .floorDiv (.binary .div (.binary .mul (.var "h") (.var "i")) (.var "j"))
              (.var "k"))
            (.unary .minus (.binary .pow (.var "l") (.var "m")))) := by
  decide +kernel

end Expr

end CharacterSheet
