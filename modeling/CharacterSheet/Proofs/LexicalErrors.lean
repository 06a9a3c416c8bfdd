import CharacterSheet.Proofs.Lexing

/-!
# Where scanning fails

A text that cannot be scanned is cut in two by its error. Everything in front of the error is
scanned, even if the text ends there, and what the error reports is what the rest starts with.

* `Construct.Opens`, `ParseError.Reports` — what a text starts with if an error reports it;
* `Lexeme.IsCut.of_append`, `Lexeme.StandsFor.of_append` — a lexeme stays what it is when the text
  behind it is cut short;
* `Lexeme.reports_of_token`, `reports_rejection` — an error reports what it is about;
* `ParseError.Divides`, `tokenize_error_divides` — the place of the error of a text.
-/

namespace CharacterSheet

variable {p : Char → Bool} {cs text rest more : List Char}

/-! ### What errors report -/

/-- The characters that stand for a construct where no lexeme starts with them. -/
def Construct.marks : Construct → List Char
  | assignment => ['=']
  | attributeAccess => ['.']
  | subscript => ['[', ']', '\x7b', '\x7d']
  | stringLiteral => ['\x27', '\x22']
  | statementSeparator => [';']
  | comparison => ['<', '>', '!']
  | operator => [':', '@', '\\']
  | conditional | lambda | comprehension | booleanLogic | statement => []

/-- No lexeme starts a text. -/
def NoLexeme (cs : List Char) : Prop := ∀ (x : Lexeme) (rest : List Char),
  x.IsCut rest → x.chars ++ rest ≠ cs

/-- A text starts with what gives a construct away. -/
inductive Construct.Opens : Construct → List Char → Prop
  | word {construct : Construct} {text rest : List Char} (hcut : (Lexeme.word text).IsCut rest)
    (hreserved : ofWord? (String.ofList text) = some construct) : Opens construct (text ++ rest)
  /-- Two equals signs are no assignment. -/
  | mark {construct : Construct} {c : Char} {r : List Char} (hc : c ∈ construct.marks)
    (hnone : NoLexeme (c :: r)) (hequality : c = '=' → r.head? ≠ some '=') :
    Opens construct (c :: r)
  | equality {r : List Char} : Opens comparison ('=' :: '=' :: r)
  | augmented {s : Sign} {r : List Char} (hcut : (Lexeme.sign s).IsCut ('=' :: r)) :
    Opens assignment (s.text.toList ++ '=' :: r)

/-- An error is about what a text starts with, and the text starts at the byte `position`. -/
inductive ParseError.Reports (position : Nat) : ParseError → List Char → Prop
  | lineBreak {c : Char} {r : List Char} (hc : c = '\n' ∨ c = '\r') :
    Reports position multiline (c :: r)
  | comment {r : List Char} : Reports position (comment position) ('#' :: r)
  | disallowed {construct : Construct} {cs : List Char} (h : construct.Opens cs) :
    Reports position (disallowed construct position) cs
  /-- The numeral is given to its end. -/
  | malformedNumber {text rest : List Char} (hcut : (Lexeme.numeral text).IsCut rest)
    (hbad : ∀ k, ¬(Lexeme.numeral text).StandsFor rest k) :
    Reports position (malformedNumber (String.ofList text) position) (text ++ rest)
  | unexpectedCharacter {c : Char} {r : List Char} (hblank : isBlank c = false)
    (hnone : NoLexeme (c :: r)) (hplain : IsPlain c)
    (hmark : ∀ construct : Construct, c ∉ construct.marks) :
    Reports position (unexpectedCharacter c position) (c :: r)

/-- The byte at which an error is placed, if it is. -/
def ParseError.position? : ParseError → Option Nat
  | comment position | disallowed _ position | unexpectedCharacter _ position
  | malformedNumber _ position | unexpectedToken _ position => some position
  | multiline | tooLong _ _ | tooDeep _ | unexpectedEnd => none

theorem ParseError.Reports.ne_nil {position : Nat} {e : ParseError}
    (h : e.Reports position cs) : cs ≠ [] := by
  cases h with
  | disallowed h =>
    cases h with
    | word hcut => exact List.append_ne_nil_of_left_ne_nil hcut.chars_ne_nil _
    | mark => exact List.cons_ne_nil _ _
    | equality => exact List.cons_ne_nil _ _
    | augmented hcut => exact List.append_ne_nil_of_left_ne_nil hcut.chars_ne_nil _
  | malformedNumber hcut => exact List.append_ne_nil_of_left_ne_nil hcut.chars_ne_nil _
  | lineBreak | comment | unexpectedCharacter => exact List.cons_ne_nil _ _

/-- Only a line break is reported without a place. -/
theorem ParseError.Reports.position?_eq {position : Nat} {e : ParseError}
    (h : e.Reports position cs) : e = multiline ∨ e.position? = some position := by
  cases h with
  | lineBreak => exact .inl rfl
  | comment | disallowed | malformedNumber | unexpectedCharacter => exact .inr rfl

/-! ### Cutting a text short -/

theorem IsRun.of_append (h : IsRun p text (rest ++ more)) : IsRun p text rest where
  forall_mem := h.forall_mem
  stops c hc := h.stops c (List.mem_head?_append_of_mem_head? hc)

theorem IsExponent.of_append (h : IsExponent text (rest ++ more)) : IsExponent text rest := by
  cases h with
  | none h => exact .none fun c hc => h c (List.mem_head?_append_of_mem_head? hc)
  | unsigned hc hsign hdigits =>
    rw [← List.append_assoc] at hsign
    exact .unsigned hc (fun s hs => hsign s (List.mem_head?_append_of_mem_head? hs))
      hdigits.of_append
  | signed hc hs hdigits => exact .signed hc hs hdigits.of_append

/-- What makes a text start like a numeral is in its digits and points. -/
theorem StartsWithNumeral.of_isRun {digits behind : List Char}
    (h : StartsWithNumeral (digits ++ behind)) (hdigits : IsRun isDigitOrPoint digits behind)
    (behind' : List Char) : StartsWithNumeral (digits ++ behind') := by
  have hstop {d : Char} {r : List Char} (hd : isDigitOrPoint d) : behind ≠ d :: r := by
    rintro rfl
    rw [hdigits.stops d rfl] at hd
    cases hd
  have hdigit {d : Char} (hd : d.isDigit) : isDigitOrPoint d := by
    rw [isDigitOrPoint, hd, Bool.true_or]
  cases digits with
  | nil =>
    cases hbehind : behind with
    | nil =>
      rw [hbehind] at h
      cases h
    | cons c r =>
      rw [hbehind] at h
      cases h with
      | digit hd => exact absurd hbehind (hstop (hdigit hd))
      | point hd => exact absurd hbehind (hstop (by decide))
  | cons c digits =>
    rw [List.cons_append] at h ⊢
    generalize hrest : digits ++ behind = r at h
    cases h with
    | digit hd => exact .digit hd
    | point hd =>
      cases digits with
      | nil => exact absurd hrest (hstop (hdigit hd))
      | cons d digits =>
        cases hrest
        exact .point hd

namespace Lexeme

variable {x : Lexeme} {k : Token}

/-- A lexeme goes on as long as it can also where the text behind it is cut short. -/
theorem IsCut.of_append (h : x.IsCut (rest ++ more)) : x.IsCut rest := by
  cases h with
  | word hc hr => exact .word hc hr.of_append
  | numeral hstart hdigits hexponent hending =>
    have hstart' := hstart.of_isRun hdigits
    rw [← List.append_assoc] at hexponent
    refine .numeral (hstart' _) ?_ hexponent.of_append hending.of_append
    simp only [← List.append_assoc] at hdigits ⊢
    exact hdigits.of_append
  | sign hlongest =>
    refine .sign fun s' hs' => hlongest s' ?_
    rw [← List.append_assoc]
    exact hs'.trans (List.prefix_append _ more)
  | leftParen => exact .leftParen
  | rightParen => exact .rightParen
  | comma => exact .comma

theorem StandsFor.of_append (h : x.StandsFor (rest ++ more) k) : x.StandsFor rest k := by
  cases h with
  | word hname => exact .word hname
  | numeral hpoint hread hfinite => exact .numeral hpoint hread hfinite
  | sign hassign =>
    exact .sign fun hrest => hassign (List.mem_head?_append_of_mem_head? (Option.mem_def.2 hrest))
  | leftParen => exact .leftParen
  | rightParen => exact .rightParen
  | comma => exact .comma

/-! ### Lexemes and characters that are turned away -/

theorem noLexeme_of_cut? (h : cut? cs = none) : NoLexeme cs := by
  rintro x rest hx rfl
  rw [cut?_of_isCut hx] at h
  cases h

/-- A lexeme that stands for no token is reported where it starts. -/
theorem reports_of_token {position : Nat} {e : ParseError} (hx : x.IsCut rest)
    (h : x.token position rest = .error e) : e.Reports position (x.chars ++ rest) := by
  cases x with
  | word text =>
    simp only [token] at h
    split at h
    · next construct hreserved =>
      cases h
      exact .disallowed (.word hx hreserved)
    · cases h
  | numeral text =>
    have hbad (k : Token) : ¬(numeral text).StandsFor rest k := by
      intro hk
      cases h.symm.trans (token_eq_ok_iff.2 hk)
    simp only [token] at h
    split at h
    · cases h
    · cases h
      exact .malformedNumber hx hbad
  | sign s =>
    simp only [token] at h
    split at h
    · next hassign =>
      obtain ⟨r, rfl⟩ := List.head?_eq_some_iff.1 hassign
      cases h
      exact .disallowed (.augmented hx)
    · cases h
  | leftParen => cases h
  | rightParen => cases h
  | comma => cases h

end Lexeme

/-- A character that starts no lexeme is reported where it is. -/
theorem reports_rejection {c : Char} {r : List Char} (hblank : isBlank c = false)
    (hcut : Lexeme.cut? (c :: r) = none) (position : Nat) :
    (rejection position c r).Reports position (c :: r) := by
  have hnone := Lexeme.noLexeme_of_cut? hcut
  have hmark {construct : Construct} {c : Char} (hnone : NoLexeme (c :: r))
      (hc : c ∈ construct.marks) (hne : c ≠ '=') :
      (ParseError.disallowed construct position).Reports position (c :: r) :=
    .disallowed (.mark hc hnone fun heq => absurd heq hne)
  unfold rejection
  split
  case h_4 =>
    split
    · next hr =>
      obtain ⟨r, rfl⟩ := List.head?_eq_some_iff.1 hr
      exact .disallowed .equality
    · next hr => exact .disallowed (.mark (by decide) hnone fun _ => hr)
  all_goals try exact hmark hnone (by decide) (by decide)
  · exact .comment
  · exact .lineBreak (.inl rfl)
  · exact .lineBreak (.inr rfl)
  · refine .unexpectedCharacter hblank hnone ⟨‹_›, ‹_›, ‹_›⟩ fun construct hc => ?_
    cases construct <;> simp_all [Construct.marks]

/-! ### The place of an error -/

/-- An error cuts a text in two: all that is in front of it is scanned, and it reports what is
behind. -/
theorem exists_reports_of_tokensFrom {position : Nat} {cs : List Char} {e : ParseError}
    (h : tokensFrom position cs = .error e) : ∃ before after, before ++ after = cs ∧
      (∃ ts, tokensFrom position before = .ok ts) ∧
      e.Reports (position + utf8Length before) after := by
  have hstart (position : Nat) : ∃ ts, tokensFrom position [] = .ok ts := ⟨[], by rw [tokensFrom]⟩
  induction hlength : cs.length using Nat.strong_induction_on generalizing position cs with
  | _ n ih =>
  subst hlength
  cases cs with
  | nil =>
    obtain ⟨ts, hts⟩ := hstart position
    cases hts.symm.trans h
  | cons c r =>
    cases hc : isBlank c with
    | true =>
      rw [tokensFrom_blank hc] at h
      obtain ⟨before, after, rfl, ⟨ts, hts⟩, hreports⟩ := ih _ (Nat.lt_succ_self _) h rfl
      refine ⟨c :: before, after, rfl, ⟨ts, by rwa [tokensFrom_blank hc]⟩, ?_⟩
      rwa [← byteLength_eq_utf8Length, byteLength, ← Nat.add_assoc, byteLength_eq_utf8Length]
    | false =>
      cases hcut : Lexeme.cut? (c :: r) with
      | none =>
        rw [tokensFrom_none hc hcut] at h
        cases h
        exact ⟨[], c :: r, rfl, hstart position, reports_rejection hc hcut position⟩
      | some cut =>
        obtain ⟨x, rest⟩ := cut
        have hlt := Lexeme.length_cut?_lt hcut
        obtain ⟨hspelled, hx⟩ := Lexeme.cut?_eq_some_iff.1 hcut
        rw [← hspelled, tokensFrom_of_isCut hx] at h
        rw [← hspelled]
        rcases bind_eq_error.1 h with htoken | ⟨k, htoken, h⟩
        · exact ⟨[], _, rfl, hstart position, Lexeme.reports_of_token hx htoken⟩
        rcases bind_eq_error.1 h with h | ⟨ts, -, h⟩
        · -- the lexeme in front stays what it is, although the text now ends at the error
          obtain ⟨before, after, rfl, ⟨ts, hts⟩, hreports⟩ := ih _ hlt h rfl
          have hk := (Lexeme.token_eq_ok_iff.1 htoken).of_append
          refine ⟨x.chars ++ before, after, List.append_assoc _ _ _, ⟨⟨k, position⟩ :: ts, ?_⟩, ?_⟩
          · rw [tokensFrom_of_isCut hx.of_append, Lexeme.token_eq_ok_iff.2 hk, hts]
            rfl
          · rwa [utf8Length_append, ← Nat.add_assoc]
        · cases h

/-- An error cuts a text in two, in front of what it reports and behind what is scanned. -/
structure ParseError.Divides (e : ParseError) (text before after : String) : Prop where
  append_eq : before ++ after = text
  /-- The text in front of the error can be scanned, although it ends there. -/
  scanned : ∃ ts, tokenize before = .ok ts
  /-- The error is about what stands behind, at the end of what stands in front. -/
  reports : e.Reports before.utf8ByteSize after.toList
  /-- The error is placed there, inside the text and between two characters. -/
  position_eq : ∀ p, e.position? = some p → p = before.utf8ByteSize ∧ p < text.utf8ByteSize ∧
    String.Pos.Raw.IsValid text ⟨p⟩
  /-- Only a line break has no place. -/
  eq_multiline : e.position? = none → e = multiline

/-- The error of a text that cannot be scanned stands at the first fault of the text. -/
theorem tokenize_error_divides {text : String} {e : ParseError} (h : tokenize text = .error e) :
    ∃ before after, e.Divides text before after := by
  obtain ⟨before, after, happend, hscanned, hreports⟩ := exists_reports_of_tokensFrom h
  rw [Nat.zero_add] at hreports
  have htext : String.ofList before ++ String.ofList after = text := by
    rw [← String.ofList_append, happend, String.ofList_toList]
  have hafter : 0 < (String.ofList after).utf8ByteSize := utf8Length_pos hreports.ne_nil
  have hplace := hreports.position?_eq
  refine ⟨String.ofList before, String.ofList after, htext, ?_, ?_, fun p hp => ?_, fun hp => ?_⟩
  · rwa [tokenize, String.toList_ofList]
  · rwa [String.toList_ofList]
  · rcases hplace with rfl | hposition
    · cases hp
    obtain rfl : utf8Length before = p := Option.some.inj (hposition.symm.trans hp)
    refine ⟨rfl, ?_, String.Pos.Raw.isValid_iff_exists_append.2 ⟨_, _, htext.symm, rfl⟩⟩
    rw [← htext, String.utf8ByteSize_append]
    exact Nat.lt_add_of_pos_right hafter
  · exact hplace.resolve_right fun hposition => by rw [hp] at hposition; cases hposition

/-- A power that is assigned, behind a sum. -/
theorem tokenize_error_divides_power :
    tokenize "1.5 + SPEED **= 2" = .error (.disallowed .assignment 12) ∧
    ∃ before after, (ParseError.disallowed .assignment 12).Divides "1.5 + SPEED **= 2" before
      after := by
  have herror : tokenize "1.5 + SPEED **= 2" = .error (.disallowed .assignment 12) := by
    decide +kernel
  exact ⟨herror, tokenize_error_divides herror⟩

/-- Reserved words give their constructs away, in this spelling only and as whole words. -/
example :
    (∀ word ∈ [("elif", Construct.conditional), ("lambda", .lambda), ("in", .comprehension),
        ("not", .booleanLogic), ("with", .statement)],
      tokenize word.1 = .error (.disallowed word.2 0)) ∧
    ∀ name ∈ ["Elif", "lambdas", "in_", "nothing", "width"],
      tokenize name = .ok [⟨.name name, 0⟩] := by
  decide +kernel

end CharacterSheet
