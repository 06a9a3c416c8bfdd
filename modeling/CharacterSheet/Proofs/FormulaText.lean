import CharacterSheet.Formula
import CharacterSheet.Proofs.Except
import CharacterSheet.Proofs.Rereading

/-!
# Formulas and what is printed of them

A text is a formula exactly if its tokens have a derivation that nests no deeper than allowed, and
the text is no longer than allowed. What is printed of a formula, which is its own tree or the part
of it that an error of evaluation names, is therefore a formula under large enough limits.

* `Formula.readExpr_eq_ok_iff` — which texts are read under given limits, and as which trees;
* `Expr.leaves_subset_of_mem_subtrees`, `Formula.isReadable` — the numbers and names of a formula;
* `Expr.node_mem_subtrees` — an error of evaluation happens at a part of the tree;
* `Formula.parse_text_of_mem_subtrees` — how what is printed of a formula reads back.
-/

namespace CharacterSheet

open Phrase

/-! ### What is read -/

theorem Scans.tokens_unique {cs : List Char} {ks ks' : List Token} (h : Scans cs ks)
    (h' : Scans cs ks') : ks = ks' := by
  obtain ⟨ts, hts, rfl⟩ := h.exists_tokensFrom 0
  obtain ⟨ts', hts', rfl⟩ := h'.exists_tokensFrom 0
  rw [Except.ok.inj (hts.symm.trans hts')]

namespace Formula

variable {source : String} {limits : ParseLimits}

theorem isPlain_iff {cs : List Char} : (∀ c ∈ cs, IsPlain c) ↔
    (cs.any fun c => c == '\n' || c == '\r') = false ∧ '#' ∉ cs := by
  simp only [IsPlain, List.any_eq_false, Bool.or_eq_true, beq_iff_eq, not_or]
  constructor
  · intro h
    exact ⟨fun c hc => ⟨(h c hc).1, (h c hc).2.1⟩, fun hcomment => (h _ hcomment).2.2 rfl⟩
  · rintro ⟨hlines, hcomment⟩ c hc
    exact ⟨(hlines c hc).1, (hlines c hc).2, fun h => hcomment (h ▸ hc)⟩

theorem screen_eq_ok_iff : screen source limits = .ok () ↔
    (∀ c ∈ source.toList, IsPlain c) ∧ byteLength source.toList ≤ limits.maxLength := by
  rw [isPlain_iff, screen]
  cases source.toList.any fun c => c == '\n' || c == '\r' with
  | true => simp
  | false =>
    by_cases hcomment : '#' ∈ source.toList
    · simp [bytePosition?, hcomment]
    · by_cases hlength : limits.maxLength < byteLength source.toList
      · simp [bytePosition?, hcomment, hlength]
      · simp [bytePosition?, hcomment, hlength, Nat.le_of_not_lt hlength]

/-- A text is read as a tree if it is short enough, and its tokens have a derivation of the tree
that nests no deeper than allowed. -/
theorem readExpr_eq_ok_iff {e : Expr} : readExpr source limits = .ok e ↔
    byteLength source.toList ≤ limits.maxLength ∧ ∃ d : Phrase.Derivation expression,
      Scans source.toList d.tokens ∧ d.expr = e ∧ d.nesting ≤ limits.maxDepth := by
  constructor
  · intro h
    obtain ⟨_, hscreen, h⟩ := bind_eq_ok.1 h
    obtain ⟨ts, htokens, h⟩ := bind_eq_ok.1 h
    have hread := mapError_eq_ok.1 h
    obtain ⟨d, hd, hexpr, hnesting⟩ :=
      (Expr.parses_expression limits.maxDepth).sound (Expr.ofTokens_eq_ok_iff_reads.1 hread)
    refine ⟨(screen_eq_ok_iff.1 hscreen).2, d, ?_, hexpr, hnesting⟩
    rw [spells_nil_right.1 hd]
    exact scans_of_tokensFrom htokens
  · rintro ⟨hlength, d, hscans, rfl, hnesting⟩
    obtain ⟨ts, hts, htokens⟩ := hscans.exists_tokensFrom 0
    have hscreen : screen source limits = .ok () :=
      screen_eq_ok_iff.2 ⟨hscans.isPlain, hlength⟩
    have hspells : Spells d.tokens ts [] := spells_nil_right.2 htokens.symm
    have hread : Expr.ofTokens limits.maxDepth ts = .ok d.expr :=
      Expr.ofTokens_eq_ok_iff_reads.2
        ((Expr.parses_expression limits.maxDepth).complete d hspells hnesting .nil)
    have htokenize : tokenize source = .ok ts := hts
    exact bind_eq_ok.2 ⟨(), hscreen, bind_eq_ok.2 ⟨ts, htokenize, mapError_eq_ok.2 hread⟩⟩

end Formula

/-! ### The parts of a formula -/

namespace Phrase

mutual

/-- The numbers and names of the tree of a phrase are among its tokens. -/
theorem Derivation.leaves_subset : {p : Phrase} → (d : Derivation p) → d.expr.leaves ⊆ d.tokens
  | _, .operand d | _, .tighter d | _, .unsigned d | _, .base d => d.leaves_subset
  | _, .binary lhs _ _ _ _ rhs | _, .exponent lhs rhs =>
    List.append_subset.2 ⟨List.subset_append_of_subset_left _ lhs.leaves_subset,
      List.subset_append_of_subset_right _ (List.subset_cons_of_subset _ rhs.leaves_subset)⟩
  | _, .unary _ _ _ d => List.subset_cons_of_subset _ d.leaves_subset
  | _, .number _ | _, .var _ => List.Subset.refl _
  | _, .call name args => by
    rw [Derivation.expr, Derivation.tokens, Expr.leaves]
    exact List.subset_append_of_subset_left _ (List.cons_subset_cons (.name name)
      (List.subset_cons_of_subset _ args.leaves_subset))
  | _, .paren d =>
    List.subset_cons_of_subset _ (List.subset_append_of_subset_left _ d.leaves_subset)

theorem Arguments.leaves_subset : (args : Arguments) → Expr.allLeaves args.exprs ⊆ args.tokens
  | .none => List.Subset.refl _
  | .last d => by
    rw [Arguments.exprs, Expr.allLeaves, Expr.allLeaves, List.append_nil]
    exact d.leaves_subset
  | .more d rest =>
    List.append_subset.2 ⟨List.subset_append_of_subset_left _ d.leaves_subset,
      List.subset_append_of_subset_right _ (List.subset_cons_of_subset _ rest.leaves_subset)⟩

end

end Phrase

namespace Expr

mutual

/-- The numbers and names of a part of a tree are numbers and names of the tree. -/
theorem leaves_subset_of_mem_subtrees {part : Expr} :
    (e : Expr) → part ∈ e.subtrees → part.leaves ⊆ e.leaves
  | number _, h | var _, h => by
    obtain rfl := List.mem_singleton.1 h
    exact List.Subset.refl _
  | unary _ operand, h => by
    rcases List.mem_cons.1 h with rfl | h
    · exact List.Subset.refl _
    · exact leaves_subset_of_mem_subtrees operand h
  | binary _ lhs rhs, h => by
    rcases List.mem_cons.1 h with rfl | h
    · exact List.Subset.refl _
    · rcases List.mem_append.1 h with h | h
      · exact List.subset_append_of_subset_left _ (leaves_subset_of_mem_subtrees lhs h)
      · exact List.subset_append_of_subset_right _ (leaves_subset_of_mem_subtrees rhs h)
  | call _ args, h => by
    rcases List.mem_cons.1 h with rfl | h
    · exact List.Subset.refl _
    · exact List.subset_cons_of_subset _ (leaves_subset_of_mem_allSubtrees args h)

theorem leaves_subset_of_mem_allSubtrees {part : Expr} :
    (es : List Expr) → part ∈ allSubtrees es → part.leaves ⊆ allLeaves es
  | [], h => by cases h
  | e :: es, h => by
    rcases List.mem_append.1 h with h | h
    · exact List.subset_append_of_subset_left _ (leaves_subset_of_mem_subtrees e h)
    · exact List.subset_append_of_subset_right _ (leaves_subset_of_mem_allSubtrees es h)

end

theorem self_mem_subtrees (e : Expr) : e ∈ e.subtrees := by
  cases e <;> exact List.mem_cons_self

theorem node_of_settle {node : Expr} {result : Except EvalError Float} {failure : Failure}
    (h : settle node result = .error failure) : failure.node = node := by
  unfold settle at h
  split at h
  · split at h
    · cases h
    · cases h
      rfl
  · cases h
    rfl

mutual

/-- An error of evaluation happens at a part of the tree. -/
theorem node_mem_subtrees {bindings : Bindings} {failure : Failure} :
    (e : Expr) → e.value bindings = .error failure → failure.node ∈ e.subtrees
  | number _, h | var _, h => by
    rw [node_of_settle h]
    exact List.mem_cons_self
  | unary op operand, h => by
    rw [value] at h
    rcases bind_eq_error.1 h with h | ⟨v, -, h⟩
    · exact List.mem_cons_of_mem _ (node_mem_subtrees operand h)
    · rw [node_of_settle h]
      exact List.mem_cons_self
  | binary op lhs rhs, h => by
    rw [value] at h
    rcases bind_eq_error.1 h with h | ⟨a, -, h⟩
    · exact List.mem_cons_of_mem _ (List.mem_append_left _ (node_mem_subtrees lhs h))
    rcases bind_eq_error.1 h with h | ⟨b, -, h⟩
    · exact List.mem_cons_of_mem _ (List.mem_append_right _ (node_mem_subtrees rhs h))
    · rw [node_of_settle h]
      exact List.mem_cons_self
  | call function args, h => by
    rw [value] at h
    split at h
    · -- there is no such function
      cases h
      exact List.mem_cons_self
    rcases bind_eq_error.1 h with h | ⟨vs, -, h⟩
    · exact List.mem_cons_of_mem _ (node_mem_allSubtrees args h)
    · rw [node_of_settle h]
      exact List.mem_cons_self

theorem node_mem_allSubtrees {bindings : Bindings} {failure : Failure} :
    (es : List Expr) → values bindings es = .error failure → failure.node ∈ allSubtrees es
  | [], h => by cases h
  | e :: es, h => by
    rw [values] at h
    rcases bind_eq_error.1 h with h | ⟨v, -, h⟩
    · exact List.mem_append_left _ (node_mem_subtrees e h)
    rcases bind_eq_error.1 h with h | ⟨vs, -, h⟩
    · exact List.mem_append_right _ (node_mem_allSubtrees es h)
    · cases h

end

end Expr

/-! ### Reading back -/

namespace Formula

variable {source : String} {limits : ParseLimits} {f : Formula}

/-- The numbers and names of a formula can be written. -/
theorem isReadable (h : parse source limits = .ok f) : f.expr.IsReadable := by
  obtain ⟨e, hread, rfl⟩ := parse_eq_ok_iff.1 h
  obtain ⟨-, d, hscans, rfl, -⟩ := readExpr_eq_ok_iff.1 hread
  exact fun k hk => hscans.readable k (d.leaves_subset hk)

/-- The text of a tree that can be written is read as the reread tree, if it is read at all, and it
is read under all limits above some. -/
theorem readExpr_text {e : Expr} (he : e.IsReadable) : ∃ bounds : ParseLimits,
    ∀ limits x, readExpr e.text limits = .ok x ↔
      bounds.maxLength ≤ limits.maxLength ∧ bounds.maxDepth ≤ limits.maxDepth ∧ x = e.reread := by
  obtain ⟨d, htokens, hexpr⟩ := e.written.text
  have hscans : Scans e.text.toList d.tokens := htokens ▸ e.scans_text he
  refine ⟨⟨byteLength e.text.toList, d.nesting⟩, fun limits x => ?_⟩
  rw [readExpr_eq_ok_iff]
  constructor
  · rintro ⟨hlength, d', hscans', rfl, hnesting⟩
    -- the text has no other tokens, and these have no other derivation
    obtain rfl := d'.eq_of_tokens_eq d (hscans'.tokens_unique hscans)
    exact ⟨hlength, hnesting, hexpr⟩
  · rintro ⟨hlength, hnesting, rfl⟩
    exact ⟨hlength, d, hscans, hexpr, hnesting⟩

/-- The text of a part of a formula is itself a formula under all limits above some, and it reads
back as that part exactly if no operand with a sign is raised to a power in it. What an error of
evaluation names is the text of a part. -/
theorem parse_text_of_mem_subtrees (h : parse source limits = .ok f) :
    (∀ e ∈ f.expr.subtrees, ∃ bounds : ParseLimits, ∀ limits' : ParseLimits,
      bounds.maxLength ≤ limits'.maxLength → bounds.maxDepth ≤ limits'.maxDepth →
      ∃ f', parse e.text limits' = .ok f' ∧ f'.expr = e.reread ∧
        (f'.expr = e ↔ ¬e.HasSignedBase)) ∧
    ∀ bindings error, f.evaluate bindings = .error error →
      ∃ e ∈ f.expr.subtrees, ∃ reason, error = .evalFailed source e.text reason := by
  constructor
  · intro e he
    have hreadable : e.IsReadable := fun k hk =>
      isReadable h k (Expr.leaves_subset_of_mem_subtrees f.expr he hk)
    obtain ⟨bounds, hread⟩ := readExpr_text hreadable
    refine ⟨bounds, fun limits' hlength hdepth => ⟨⟨e.text, e.reread, e.reread.variableNames⟩, ?_⟩⟩
    have hok := (hread limits' e.reread).2 ⟨hlength, hdepth, rfl⟩
    exact ⟨parse_eq_ok_iff.2 ⟨e.reread, hok, rfl⟩, rfl, e.reread_eq_self_iff⟩
  · intro bindings error herror
    obtain ⟨e, -, rfl⟩ := parse_eq_ok_iff.1 h
    unfold evaluate at herror
    split at herror
    · cases herror
    · next failure hvalue =>
      cases herror
      exact ⟨failure.node, e.node_mem_subtrees hvalue, failure.reason, rfl⟩

/-- The square of a negative number. -/
def signedSquare : Formula :=
  ⟨"(-2) ** 2", .binary .pow (.unary .minus (.number 2)) (.number 2), []⟩

theorem parse_signedSquare : parse "(-2) ** 2" = .ok signedSquare := by decide +kernel

theorem text_signedSquare : signedSquare.expr.text = "-2 ** 2" := by decide +kernel

theorem reread_signedSquare : signedSquare.expr.reread =
    .unary .minus (.binary .pow (.number 2) (.number 2)) := rfl

/-- The text of the square of a negative number is read as the negative of a square. -/
theorem parse_text_signedSquare : ∃ bounds : ParseLimits, ∀ limits : ParseLimits,
    bounds.maxLength ≤ limits.maxLength → bounds.maxDepth ≤ limits.maxDepth →
    ∃ f, parse "-2 ** 2" limits = .ok f ∧
      f.expr = .unary .minus (.binary .pow (.number 2) (.number 2)) := by
  obtain ⟨bounds, hread⟩ := (parse_text_of_mem_subtrees parse_signedSquare).1 signedSquare.expr
    signedSquare.expr.self_mem_subtrees
  refine ⟨bounds, fun limits hlength hdepth => ?_⟩
  obtain ⟨f, hf, hexpr, -⟩ := hread limits hlength hdepth
  rw [text_signedSquare] at hf
  exact ⟨f, hf, hexpr.trans reread_signedSquare⟩

/-- Under no limits is the text of the square of a negative number read as that square. -/
theorem expr_ne_of_parse_text_signedSquare : parse "(-2) ** 2" = .ok signedSquare ∧
    ∀ limits f, parse signedSquare.expr.text limits = .ok f → f.expr ≠ signedSquare.expr := by
  refine ⟨parse_signedSquare, fun limits f h heq => ?_⟩
  obtain ⟨e, hread, rfl⟩ := parse_eq_ok_iff.1 h
  obtain ⟨bounds, hiff⟩ := readExpr_text (isReadable parse_signedSquare)
  obtain ⟨-, -, hreread⟩ := (hiff limits e).1 hread
  obtain rfl : e = signedSquare.expr := heq
  rw [reread_signedSquare] at hreread
  cases hreread

end Formula

end CharacterSheet
