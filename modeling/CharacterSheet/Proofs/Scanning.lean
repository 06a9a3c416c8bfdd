import CharacterSheet.Formula.Token.Scan
import CharacterSheet.Proofs.Decimal.ReadBack
import CharacterSheet.Proofs.Except

/-!
# What scanning finds in a text

The tokens of a text as a relation, without positions and errors. It composes: what is written in
front of a scanned text is scanned too, as long as its last lexeme does not run on into that text.

* `Scans` — a text has given tokens;
* `Scans.exists_tokensFrom`, `scans_of_tokensFrom` — the scanner finds the tokens that a text has,
  and no others;
* `Scans.readable`, `Scans.isPlain` — what tokens can be found, and what characters a text of tokens
  is made of;
* `Scans.name`, `Scans.numeral`, `Scans.unary`, `Scans.binary` — writing a token in front of a text.
-/

namespace CharacterSheet

/-- The tokens of a text. -/
inductive Scans : List Char → List Token → Prop
  | nil : Scans [] []
  | blank {c : Char} {r : List Char} {ks : List Token} (hc : isBlank c) (h : Scans r ks) :
    Scans (c :: r) ks
  | lexeme {c : Char} {r rest : List Char} {x : Lexeme} {k : Token} {ks : List Token}
    (hc : isBlank c = false) (hcut : Lexeme.cut? (c :: r) = some (x, rest))
    (htoken : ∀ position, x.token position rest = .ok k) (h : Scans rest ks) :
    Scans (c :: r) (k :: ks)

/-- A lexeme that stands for a token stands for it at every position. -/
theorem Lexeme.token_eq_ok {x : Lexeme} {rest : List Char} {p : Nat} {k : Token}
    (h : x.token p rest = .ok k) (q : Nat) : x.token q rest = .ok k := by
  cases x with
  | word text =>
    simp only [token] at h ⊢
    split at h
    · cases h
    · exact h
  | numeral text =>
    simp only [token] at h ⊢
    split at h
    · exact h
    · cases h
  | sign s =>
    simp only [token] at h ⊢
    split at h
    · cases h
    · next hrest => rw [if_neg hrest, h]
  | leftParen => exact h
  | rightParen => exact h
  | comma => exact h

theorem Lexeme.token_sign {s : Sign} {rest : List Char} (h : rest.head? ≠ some '=') (p : Nat) :
    (sign s).token p rest = .ok (.sign s) := by
  rw [token, if_neg h]

section Scanner

variable {cs r rest : List Char} {ks : List Token} {ts : List PlacedToken} {c : Char} {x : Lexeme}

theorem tokensFrom_blank (hc : isBlank c) (p : Nat) :
    tokensFrom p (c :: r) = tokensFrom (p + c.utf8Size) r := by
  rw [tokensFrom, if_pos hc]

theorem tokensFrom_lexeme (hc : isBlank c = false) (hcut : Lexeme.cut? (c :: r) = some (x, rest))
    (p : Nat) : tokensFrom p (c :: r) = (do
      let token ← x.token p rest
      let tokens ← tokensFrom (p + byteLength x.chars) rest
      return ⟨token, p⟩ :: tokens) := by
  rw [tokensFrom, if_neg (by simp [hc])]
  split
  · next hnone => cases hnone.symm.trans hcut
  · next hsome =>
    cases hsome.symm.trans hcut
    rfl

theorem tokensFrom_none (hc : isBlank c = false) (hcut : Lexeme.cut? (c :: r) = none) (p : Nat) :
    tokensFrom p (c :: r) = .error (rejection p c r) := by
  rw [tokensFrom, if_neg (by simp [hc])]
  split
  · rfl
  · next hsome => cases hsome.symm.trans hcut

/-- The tokens of a text are found, wherever the text stands. -/
theorem Scans.exists_tokensFrom (h : Scans cs ks) (p : Nat) :
    ∃ ts, tokensFrom p cs = .ok ts ∧ ts.map (·.token) = ks := by
  induction h generalizing p with
  | nil => exact ⟨[], by rw [tokensFrom], rfl⟩
  | blank hc _ ih =>
    rw [tokensFrom_blank hc]
    exact ih _
  | lexeme hc hcut htoken _ ih =>
    obtain ⟨ts, hts, rfl⟩ := ih (p + byteLength _)
    refine ⟨⟨_, p⟩ :: ts, ?_, rfl⟩
    rw [tokensFrom_lexeme hc hcut, htoken, hts]
    rfl

/-- What is found are the tokens of the text. -/
theorem scans_of_tokensFrom {p : Nat} {cs : List Char} {ts : List PlacedToken}
    (h : tokensFrom p cs = .ok ts) : Scans cs (ts.map (·.token)) := by
  match cs with
  | [] =>
    rw [tokensFrom] at h
    cases h
    exact .nil
  | c :: r =>
    cases hc : isBlank c with
    | true =>
      rw [tokensFrom_blank hc] at h
      exact .blank hc (scans_of_tokensFrom h)
    | false =>
      cases hcut : Lexeme.cut? (c :: r) with
      | none =>
        rw [tokensFrom_none hc hcut] at h
        cases h
      | some cut =>
        obtain ⟨x, rest⟩ := cut
        have hlt := Lexeme.length_cut?_lt hcut
        rw [tokensFrom_lexeme hc hcut] at h
        obtain ⟨k, htoken, h⟩ := bind_eq_ok.1 h
        obtain ⟨us, htokens, h⟩ := bind_eq_ok.1 h
        cases h
        exact .lexeme hc hcut (Lexeme.token_eq_ok htoken) (scans_of_tokensFrom htokens)
termination_by cs.length
decreasing_by
  · exact hlt
  · exact Nat.lt_succ_self _

end Scanner

/-! ### What can be found -/

/-- A text that is scanned as a word, and that is not reserved. -/
structure IsName (name : String) : Prop where
  exists_eq_cons : ∃ c r, name.toList = c :: r ∧ isWordStart c ∧ ∀ x ∈ r, isWordChar x
  not_reserved : Construct.ofWord? name = none

/-- A token that some text has: a number has a numeral, and a name is not reserved. -/
def Token.IsReadable : Token → Prop
  | number value => ∃ text, numeralValue? text = some value
  | name text => IsName text
  | _ => True

/-- A character that is no line break and starts no comment. -/
def IsPlain (c : Char) : Prop := c ≠ '\n' ∧ c ≠ '\r' ∧ c ≠ '#'

instance : DecidablePred IsPlain := fun _ => inferInstanceAs (Decidable (_ ∧ _))

theorem cut?_word {c : Char} {r rest text : List Char}
    (h : Lexeme.cut? (c :: r) = some (.word text, rest)) :
    isWordStart c ∧ text = c :: r.takeWhile isWordChar := by
  simp only [Lexeme.cut?] at h
  split at h
  · cases h
  split at h
  · next hc =>
    cases h
    exact ⟨hc, rfl⟩
  repeat' split at h
  · cases h
  · cases h
  · cases h
  · obtain ⟨⟨s, rest'⟩, -, he⟩ := Option.map_eq_some_iff.1 h
    cases he

theorem Lexeme.readable_of_token {c : Char} {r rest : List Char} {x : Lexeme} {p : Nat} {k : Token}
    (hcut : cut? (c :: r) = some (x, rest)) (h : x.token p rest = .ok k) : k.IsReadable := by
  cases x with
  | word text =>
    simp only [token] at h
    split at h
    · cases h
    · next hword =>
      cases h
      obtain ⟨hc, rfl⟩ := cut?_word hcut
      exact ⟨⟨c, _, String.toList_ofList, hc, fun x hx => List.mem_takeWhile_imp hx⟩, hword⟩
  | numeral text =>
    simp only [token] at h
    split at h
    · next hvalue =>
      cases h
      exact ⟨text, hvalue⟩
    · cases h
  | sign s =>
    simp only [token] at h
    split at h <;> cases h
    trivial
  | leftParen | rightParen | comma =>
    cases h
    trivial

theorem Scans.readable {cs : List Char} {ks : List Token} (h : Scans cs ks) :
    ∀ k ∈ ks, k.IsReadable := by
  induction h with
  | nil => simp
  | blank _ _ ih => exact ih
  | lexeme _ hcut htoken _ ih =>
    intro k hk
    rcases List.mem_cons.1 hk with rfl | hk
    · exact Lexeme.readable_of_token hcut (htoken 0)
    · exact ih k hk

theorem isPlain_of_pos {p : Char → Bool} (hp : p '\n' = false ∧ p '\r' = false ∧ p '#' = false)
    {c : Char} (hc : p c) : IsPlain c := by
  refine ⟨?_, ?_, ?_⟩ <;> rintro rfl
  · exact absurd hc (by simp [hp.1])
  · exact absurd hc (by simp [hp.2.1])
  · exact absurd hc (by simp [hp.2.2])

theorem isPlain_of_isDigit {c : Char} (hc : c.isDigit) : IsPlain c := isPlain_of_pos (by decide) hc

theorem isPlain_of_isWordChar {c : Char} (hc : isWordChar c) : IsPlain c :=
  isPlain_of_pos (by decide) hc

theorem isPlain_of_mem_spanExponent {cs : List Char} :
    ∀ c ∈ (spanExponent cs).1, IsPlain c := by
  have hletter : ∀ c : Char, (c == 'e' || c == 'E') = true → IsPlain c := fun c =>
    isPlain_of_pos (p := fun c => c == 'e' || c == 'E') (by decide)
  have hsign : ∀ c : Char, (c == '+' || c == '-') = true → IsPlain c := fun c =>
    isPlain_of_pos (p := fun c => c == '+' || c == '-') (by decide)
  have hdigits : ∀ r : List Char, ∀ c ∈ r.takeWhile Char.isDigit, IsPlain c := fun r c hc =>
    isPlain_of_isDigit (List.mem_takeWhile_imp hc)
  unfold spanExponent
  split
  · simp
  split
  · next hc =>
    split
    · split
      · next hs =>
        refine List.forall_mem_cons.2 ⟨hletter _ hc, ?_⟩
        exact List.forall_mem_cons.2 ⟨hsign _ hs, hdigits _⟩
      · exact List.forall_mem_cons.2 ⟨hletter _ hc, hdigits _⟩
    · exact List.forall_mem_cons.2 ⟨hletter _ hc, by simp⟩
  · simp

theorem isPlain_of_mem_spanNumeral {cs : List Char} : ∀ c ∈ (spanNumeral cs).1, IsPlain c := by
  intro c hc
  simp only [spanNumeral, List.mem_append] at hc
  rcases hc with hc | hc | hc
  · exact isPlain_of_pos (by decide) (List.mem_takeWhile_imp hc)
  · exact isPlain_of_mem_spanExponent c hc
  · exact isPlain_of_isWordChar (List.mem_takeWhile_imp hc)

theorem Sign.isPlain_of_mem_text (s : Sign) : ∀ c ∈ s.text.toList, IsPlain c := by
  cases s <;> simp [text, IsPlain]

theorem Lexeme.isPlain_of_mem_chars {cs rest : List Char} {x : Lexeme}
    (h : cut? cs = some (x, rest)) : ∀ c ∈ x.chars, IsPlain c := by
  cases cs with
  | nil => cases h
  | cons c r =>
    simp only [cut?] at h
    split at h
    · cases h
      exact isPlain_of_mem_spanNumeral
    split at h
    · next hc =>
      cases h
      refine List.forall_mem_cons.2 ⟨isPlain_of_pos (by decide) hc, fun x hx => ?_⟩
      exact isPlain_of_isWordChar (List.mem_takeWhile_imp hx)
    repeat' split at h
    · cases h
      simp [chars, IsPlain]
    · cases h
      simp [chars, IsPlain]
    · cases h
      simp [chars, IsPlain]
    · obtain ⟨⟨s, rest'⟩, -, he⟩ := Option.map_eq_some_iff.1 h
      cases he
      exact Sign.isPlain_of_mem_text s

/-- A text of tokens is one line without a comment. -/
theorem Scans.isPlain {cs : List Char} {ks : List Token} (h : Scans cs ks) :
    ∀ c ∈ cs, IsPlain c := by
  induction h with
  | nil => simp
  | blank hc _ ih => exact List.forall_mem_cons.2 ⟨isPlain_of_pos (by decide) hc, ih⟩
  | lexeme _ hcut _ _ ih =>
    rw [← Lexeme.cut?_append hcut]
    exact List.forall_mem_append.2 ⟨Lexeme.isPlain_of_mem_chars hcut, ih⟩

/-! ### Writing a token in front of a text -/

/-- A text in front of which a word or a numeral ends. -/
def Ends (cs : List Char) : Prop := ∀ c ∈ cs.head?, isWordChar c = false ∧ c ≠ '.'

theorem ends_nil : Ends [] := nofun

theorem ends_cons {c : Char} {r : List Char} (hc : isWordChar c = false) (hpoint : c ≠ '.') :
    Ends (c :: r) := by
  rintro x ⟨⟩
  exact ⟨hc, hpoint⟩

theorem isWordChar_of_isDigit {c : Char} (hc : c.isDigit) : isWordChar c := by
  simp [isWordChar, Char.isAlphanum, hc]

theorem ne_point_of_isDigit {c : Char} (hc : c.isDigit) : c ≠ '.' := by
  rintro rfl
  exact absurd hc (by decide)

theorem not_isBlank_of_isWordChar {c : Char} (hc : isWordChar c) : isBlank c = false := by
  rw [← Bool.not_eq_true]
  intro hblank
  obtain rfl | rfl : c = ' ' ∨ c = '\t' := by simpa [isBlank] using hblank
  · exact absurd hc (by decide)
  · exact absurd hc (by decide)

theorem not_isDigit_of_isWordStart {c : Char} (hc : isWordStart c) : c.isDigit = false := by
  rw [← Bool.not_eq_true]
  intro hdigit
  obtain rfl | halpha : c = '_' ∨ c.isAlpha := by simpa [isWordStart] using hc
  · exact absurd hdigit (by decide)
  · simp only [Char.isAlpha, Char.isUpper, Char.isLower, Char.isDigit, Bool.or_eq_true,
      Bool.and_eq_true, decide_eq_true_eq, UInt32.le_iff_toNat_le] at halpha hdigit
    simp only [Char.toNat_val, Char.reduceToNat] at halpha hdigit
    omega

theorem isWordChar_of_isWordStart {c : Char} (hc : isWordStart c) : isWordChar c := by
  simp only [isWordStart, isWordChar, Char.isAlphanum, Bool.or_eq_true] at hc ⊢
  exact hc.imp_right .inl

section Run

variable {p : Char → Bool} {ds cs : List Char}

/-- A run of characters stops in front of a text that does not go on with it. -/
theorem takeWhile_run (hds : ∀ c ∈ ds, p c) (hcs : ∀ c ∈ cs.head?, p c = false) :
    (ds ++ cs).takeWhile p = ds := by
  rw [List.takeWhile_append_of_pos hds]
  cases cs with
  | nil => simp
  | cons c r => rw [List.takeWhile_cons_of_neg (by simp [hcs c rfl]), List.append_nil]

theorem dropWhile_run (hds : ∀ c ∈ ds, p c) (hcs : ∀ c ∈ cs.head?, p c = false) :
    (ds ++ cs).dropWhile p = cs := by
  rw [List.dropWhile_append_of_pos hds]
  cases cs with
  | nil => simp
  | cons c r => rw [List.dropWhile_cons_of_neg (by simp [hcs c rfl])]

end Run

theorem spanExponent_of_ends {cs : List Char} (h : Ends cs) : spanExponent cs = ([], cs) := by
  cases cs with
  | nil => rfl
  | cons c r =>
    have hc : (c == 'e' || c == 'E') = false := by
      rw [← Bool.not_eq_true]
      intro hletter
      obtain rfl | rfl : c = 'e' ∨ c = 'E' := by simpa using hletter
      · exact absurd (h _ rfl).1 (by decide)
      · exact absurd (h _ rfl).1 (by decide)
    simp [spanExponent, hc]

theorem spanNumeral_of_ends {ds cs : List Char} (hds : ∀ c ∈ ds, isDigitOrPoint c) (h : Ends cs) :
    spanNumeral (ds ++ cs) = (ds, cs) := by
  have hcs : ∀ c ∈ cs.head?, isDigitOrPoint c = false := by
    intro c hc
    rw [← Bool.not_eq_true, isDigitOrPoint, Bool.or_eq_true, beq_iff_eq]
    rintro (hdigit | hpoint)
    · exact absurd (isWordChar_of_isDigit hdigit) (by simp [(h c hc).1])
    · exact (h c hc).2 hpoint
  have hword : ∀ c ∈ cs.head?, isWordChar c = false := fun c hc => (h c hc).1
  have htake : cs.takeWhile isWordChar = [] := takeWhile_run (List.forall_mem_nil _) hword
  have hdrop : cs.dropWhile isWordChar = cs := dropWhile_run (List.forall_mem_nil _) hword
  simp [spanNumeral, takeWhile_run hds hcs, dropWhile_run hds hcs, spanExponent_of_ends h, htake,
    hdrop]

theorem startsNumeral_of_ne_point {c : Char} {r : List Char} (hc : c ≠ '.') :
    startsNumeral (c :: r) = c.isDigit := by
  unfold startsNumeral
  split
  · next h => cases h; exact absurd rfl hc
  · next h => cases h; rfl
  · next h => cases h

/-- The sign of an operator before an operand. -/
def UnaryOp.sign : UnaryOp → Sign
  | plus => .plus
  | minus => .minus
  | invert => .tilde

/-- The sign of an operator between two operands. -/
def BinaryOp.sign : BinaryOp → Sign
  | add => .plus
  | sub => .minus
  | mul => .star
  | div => .slash
  | floorDiv => .doubleSlash
  | mod => .percent
  | pow => .doubleStar
  | bitOr => .pipe
  | bitAnd => .ampersand
  | bitXor => .caret
  | shiftLeft => .doubleLess
  | shiftRight => .doubleGreater

@[simp] theorem UnaryOp.unary?_sign (op : UnaryOp) : op.sign.unary? = some op := by
  cases op <;> rfl

@[simp] theorem BinaryOp.binary?_sign (op : BinaryOp) : op.sign.binary? = some op := by
  cases op <;> rfl

namespace Scans

variable {cs : List Char} {ks : List Token}

/-- No token begins with an equals sign, so no sign in front of one is an assignment. -/
theorem ne_equals (h : Scans cs ks) : cs.head? ≠ some '=' := by
  intro hcs
  obtain ⟨r, rfl⟩ := List.head?_eq_some_iff.1 hcs
  have hnone : Lexeme.cut? ('=' :: r) = none := rfl
  cases h with
  | blank hc _ => exact absurd hc (by decide)
  | lexeme _ hcut _ _ => cases hnone.symm.trans hcut

theorem space (h : Scans cs ks) : Scans (' ' :: cs) ks := .blank rfl h

theorem leftParen (h : Scans cs ks) : Scans ('(' :: cs) (.leftParen :: ks) :=
  .lexeme (x := .leftParen) rfl rfl (fun _ => rfl) h

theorem rightParen (h : Scans cs ks) : Scans (')' :: cs) (.rightParen :: ks) :=
  .lexeme (x := .rightParen) rfl rfl (fun _ => rfl) h

theorem comma (h : Scans cs ks) : Scans (',' :: cs) (.comma :: ks) :=
  .lexeme (x := .comma) rfl rfl (fun _ => rfl) h

theorem name {name : String} (hname : IsName name) (hcs : Ends cs) (h : Scans cs ks) :
    Scans (name.toList ++ cs) (.name name :: ks) := by
  obtain ⟨⟨c, r, htext, hc, hr⟩, hreserved⟩ := hname
  have hword := isWordChar_of_isWordStart hc
  have hpoint : c ≠ '.' := by
    rintro rfl
    exact absurd hc (by decide)
  have hstart : startsNumeral (c :: (r ++ cs)) = false := by
    rw [startsNumeral_of_ne_point hpoint, not_isDigit_of_isWordStart hc]
  have hends : ∀ x ∈ cs.head?, isWordChar x = false := fun x hx => (hcs x hx).1
  have hcut : Lexeme.cut? (c :: (r ++ cs)) = some (.word (c :: r), cs) := by
    simp [Lexeme.cut?, hstart, hc, takeWhile_run hr hends, dropWhile_run hr hends]
  have hofList : String.ofList (c :: r) = name := by rw [← htext, String.ofList_toList]
  rw [htext]
  refine .lexeme (not_isBlank_of_isWordChar hword) hcut (fun p => ?_) h
  simp only [Lexeme.token, hofList, hreserved]

theorem numeral {c : Char} {r : List Char} {value : Float} (hc : c.isDigit)
    (hr : ∀ x ∈ r, isDigitOrPoint x) (hvalue : numeralValue? (c :: r) = some value) (hcs : Ends cs)
    (h : Scans cs ks) : Scans (c :: r ++ cs) (.number value :: ks) := by
  have hstart : startsNumeral (c :: (r ++ cs)) := by
    rw [startsNumeral_of_ne_point (ne_point_of_isDigit hc), hc]
  have hspan : spanNumeral (c :: (r ++ cs)) = (c :: r, cs) := by
    have hpoint : isDigitOrPoint c := by rw [isDigitOrPoint, hc, Bool.true_or]
    exact spanNumeral_of_ends (List.forall_mem_cons.2 ⟨hpoint, hr⟩) hcs
  have hcut : Lexeme.cut? (c :: (r ++ cs)) = some (.numeral (c :: r), cs) := by
    simp [Lexeme.cut?, hstart, hspan]
  refine .lexeme (not_isBlank_of_isWordChar (isWordChar_of_isDigit hc)) hcut (fun p => ?_) h
  simp only [Lexeme.token, hvalue]

theorem of_cut? {rest : List Char} {x : Lexeme} {k : Token}
    (hcs : ∀ c ∈ cs.head?, isBlank c = false) (hcut : Lexeme.cut? cs = some (x, rest))
    (htoken : ∀ p, x.token p rest = .ok k) (h : Scans rest ks) : Scans cs (k :: ks) := by
  cases cs with
  | nil => cases hcut
  | cons c r => exact .lexeme (hcs c rfl) hcut htoken h

theorem unary (op : UnaryOp) (h : Scans cs ks) :
    Scans (op.symbol.toList ++ cs) (.sign op.sign :: ks) := by
  have hcut : Lexeme.cut? (op.symbol.toList ++ cs) = some (.sign op.sign, cs) := by
    cases op <;> rfl
  have hblank : ∀ c ∈ (op.symbol.toList ++ cs).head?, isBlank c = false := by
    cases op <;> rintro c ⟨⟩ <;> rfl
  exact of_cut? hblank hcut (Lexeme.token_sign h.ne_equals) h

theorem binary (op : BinaryOp) (h : Scans cs ks) :
    Scans (' ' :: (op.symbol.toList ++ ' ' :: cs)) (.sign op.sign :: ks) := by
  have hcut : Lexeme.cut? (op.symbol.toList ++ ' ' :: cs) = some (.sign op.sign, ' ' :: cs) := by
    cases op <;> rfl
  have hblank : ∀ c ∈ (op.symbol.toList ++ ' ' :: cs).head?, isBlank c = false := by
    cases op <;> rintro c ⟨⟩ <;> rfl
  have hequals : (' ' :: cs).head? ≠ some '=' := by simp
  exact space (of_cut? hblank hcut (Lexeme.token_sign hequals) h.space)

end Scans

end CharacterSheet
