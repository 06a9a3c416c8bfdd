import CharacterSheet.Formula.LexicalGrammar
import CharacterSheet.Proofs.Scanning

/-!
# Scanning and the lexical grammar

The tokens of a text are those of its lexemes, where the lexical grammar cuts it into blanks and
lexemes to the end and allows every lexeme. There is at most one way to cut a text.

* `Lexeme.cut?_eq_some_iff` — what is cut off the front of a text goes on for as long as it can;
* `Lexeme.token_eq_ok_iff` — the tokens that lexemes stand for;
* `IsCutting.unique` — the grammar cuts in one way only;
* `tokensFrom_eq_ok_iff`, `tokenize_follows_grammar` — scanning finds the tokens of a cutting.
-/

namespace CharacterSheet

variable {cs text rest : List Char}

/-! ### Runs -/

section Run

variable {p : Char → Bool}

theorem isRun_takeWhile (p : Char → Bool) (cs : List Char) :
    IsRun p (cs.takeWhile p) (cs.dropWhile p) where
  forall_mem c hc := List.mem_takeWhile_imp hc
  stops c hc := by
    have h := List.head?_dropWhile_not p cs
    rw [Option.mem_def.1 hc] at h
    simpa using h

theorem IsRun.takeWhile_eq (h : IsRun p text rest) : (text ++ rest).takeWhile p = text :=
  takeWhile_run h.forall_mem h.stops

theorem IsRun.dropWhile_eq (h : IsRun p text rest) : (text ++ rest).dropWhile p = rest :=
  dropWhile_run h.forall_mem h.stops

end Run

/-! ### Exponents and numerals -/

theorem isExponent_spanExponent (cs : List Char) :
    IsExponent (spanExponent cs).1 (spanExponent cs).2 := by
  unfold spanExponent
  split
  · exact .none (by simp)
  next c r =>
  split
  · next hletter =>
    have hc : c = 'e' ∨ c = 'E' := by simpa using hletter
    split
    · next s r' =>
      split
      · next hs => exact .signed hc (by simpa using hs) (isRun_takeWhile _ _)
      · next hs =>
        refine .unsigned hc ?_ (isRun_takeWhile _ _)
        rw [List.takeWhile_append_dropWhile]
        rintro x ⟨⟩
        simpa using hs
    · exact .unsigned hc (by simp) ⟨by simp, by simp⟩
  · next hletter =>
    refine .none ?_
    rintro x ⟨⟩
    simpa using hletter

theorem spanExponent_of_isExponent (h : IsExponent text rest) :
    spanExponent (text ++ rest) = (text, rest) := by
  cases h with
  | none h =>
    cases rest with
    | nil => rfl
    | cons c r => simp [spanExponent, h c rfl]
  | @unsigned c digits _ hc hsign hdigits =>
    have hletter : (c == 'e' || c == 'E') = true := by simpa using hc
    have htake := hdigits.takeWhile_eq
    have hdrop := hdigits.dropWhile_eq
    rw [List.cons_append]
    cases hr : digits ++ rest with
    | nil =>
      obtain ⟨rfl, rfl⟩ := List.append_eq_nil_iff.1 hr
      simp [spanExponent, hletter]
    | cons s r =>
      rw [hr] at hsign htake hdrop
      simp [spanExponent, hletter, hsign s rfl, htake, hdrop]
  | @signed c s digits _ hc hs hdigits =>
    have hletter : (c == 'e' || c == 'E') = true := by simpa using hc
    have hsign : (s == '+' || s == '-') = true := by simpa using hs
    simp [spanExponent, hletter, hsign, hdigits.takeWhile_eq, hdigits.dropWhile_eq]

theorem startsNumeral_iff : startsNumeral cs ↔ StartsWithNumeral cs := by
  constructor
  · intro h
    unfold startsNumeral at h
    split at h
    · exact .point h
    · exact .digit h
    · cases h
  · intro h
    cases h with
    | digit hd => rw [startsNumeral_of_ne_point (ne_point_of_isDigit hd), hd]
    | point hd => exact hd

theorem startsNumeral_of_isWordStart {c : Char} {r : List Char} (hc : isWordStart c) :
    startsNumeral (c :: r) = false := by
  have hpoint : c ≠ '.' := by
    rintro rfl
    exact absurd hc (by decide)
  rw [startsNumeral_of_ne_point hpoint, not_isDigit_of_isWordStart hc]

theorem isCut_spanNumeral (h : startsNumeral cs) :
    Lexeme.IsCut (.numeral (spanNumeral cs).1) (spanNumeral cs).2 := by
  have hexponent := isExponent_spanExponent (cs.dropWhile isDigitOrPoint)
  have hsplit := spanExponent_append (cs.dropWhile isDigitOrPoint)
  unfold spanNumeral
  generalize spanExponent (cs.dropWhile isDigitOrPoint) = cut at hexponent hsplit ⊢
  obtain ⟨exponent, behind⟩ := cut
  dsimp only at hexponent hsplit ⊢
  refine .numeral ?_ ?_ ?_ (isRun_takeWhile _ _)
  · rw [List.takeWhile_append_dropWhile, hsplit, List.takeWhile_append_dropWhile]
    exact startsNumeral_iff.1 h
  · rw [List.takeWhile_append_dropWhile, hsplit]
    exact isRun_takeWhile _ _
  · rwa [List.takeWhile_append_dropWhile]

/-! ### Signs -/

namespace Sign

variable {s : Sign}

theorem text_length_pos (s : Sign) : 1 ≤ s.text.length := by
  cases s <;> decide

/-- The sign that is cut off is the longest one at the front of the text. -/
theorem isCut_of_cut? (h : cut? cs = some (s, rest)) : Lexeme.IsCut (.sign s) rest := by
  refine .sign fun s' hprefix => ?_
  rw [cut?_append h] at hprefix
  obtain ⟨t, rfl⟩ := hprefix
  cases s' with
  | doubleStar | doubleSlash | doubleLess | doubleGreater =>
    -- a sign of two characters is found before those of one character
    cases h
    exact le_rfl
  | plus | minus | star | slash | percent | pipe | ampersand | caret | tilde =>
    exact s.text_length_pos

/-- A sign of one character is cut off where it does not go on. -/
theorem head?_ne_of_isCut {c : Char} (double : Sign) (hs : s.text.toList = [c])
    (hdouble : double.text.toList = [c, c]) (hlength : s.text.length < double.text.length)
    (h : Lexeme.IsCut (.sign s) rest) : rest.head? ≠ some c := by
  intro hrest
  obtain ⟨r, rfl⟩ := List.head?_eq_some_iff.1 hrest
  cases h with
  | sign hlongest =>
    have hle := hlongest double ⟨r, by rw [hs, hdouble]; rfl⟩
    omega

theorem cut?_of_isCut (h : Lexeme.IsCut (.sign s) rest) :
    cut? (s.text.toList ++ rest) = some (s, rest) := by
  cases s with
  | star =>
    have hrest : rest.head? ≠ some '*' :=
      head?_ne_of_isCut .doubleStar rfl rfl (by decide) h
    cases rest with
    | nil => rfl
    | cons c r =>
      have hc : c ≠ '*' := by simpa using hrest
      simp [text, cut?, hc]
  | slash =>
    have hrest : rest.head? ≠ some '/' :=
      head?_ne_of_isCut .doubleSlash rfl rfl (by decide) h
    cases rest with
    | nil => rfl
    | cons c r =>
      have hc : c ≠ '/' := by simpa using hrest
      simp [text, cut?, hc]
  | _ => rfl

end Sign

/-! ### Lexemes -/

namespace Lexeme

variable {x : Lexeme}

theorem isCut_of_cut? (h : cut? cs = some (x, rest)) : x.IsCut rest := by
  cases cs with
  | nil => cases h
  | cons c r =>
    simp only [cut?] at h
    split at h
    · next hstart =>
      cases h
      exact isCut_spanNumeral hstart
    split at h
    · next hc =>
      cases h
      exact .word hc (isRun_takeWhile _ _)
    split at h
    · cases h
      exact .leftParen
    split at h
    · cases h
      exact .rightParen
    split at h
    · cases h
      exact .comma
    · obtain ⟨⟨s, rest'⟩, hs, he⟩ := Option.map_eq_some_iff.1 h
      cases he
      exact Sign.isCut_of_cut? hs

theorem cut?_of_isCut (h : x.IsCut rest) : cut? (x.chars ++ rest) = some (x, rest) := by
  cases h with
  | @word c r _ hc hr =>
    simp [chars, cut?, startsNumeral_of_isWordStart hc, hc, hr.takeWhile_eq, hr.dropWhile_eq]
  | @numeral digits exponent ending _ hstart hdigits hexponent hending =>
    have hspan : spanNumeral (digits ++ (exponent ++ (ending ++ rest))) =
        (digits ++ (exponent ++ ending), rest) := by
      simp [spanNumeral, hdigits.takeWhile_eq, hdigits.dropWhile_eq,
        spanExponent_of_isExponent hexponent, hending.takeWhile_eq, hending.dropWhile_eq]
    have hchars : (numeral (digits ++ (exponent ++ ending))).chars ++ rest =
        digits ++ (exponent ++ (ending ++ rest)) := by
      simp [chars]
    rw [hchars]
    have hstarts := startsNumeral_iff.2 hstart
    generalize digits ++ (exponent ++ (ending ++ rest)) = cs at hstarts hspan
    cases cs with
    | nil => cases hstarts
    | cons c r => simp [cut?, hstarts, hspan]
  | @sign s _ hlongest =>
    have hsign : cut? (s.text.toList ++ rest) =
        (Sign.cut? (s.text.toList ++ rest)).map fun cut => (sign cut.1, cut.2) := by
      cases s <;> rfl
    rw [chars, hsign, Sign.cut?_of_isCut (.sign hlongest)]
    rfl
  | leftParen | rightParen | comma => rfl

/-- What is cut off the front of a text is a lexeme that goes on as long as it can. -/
theorem cut?_eq_some_iff : cut? cs = some (x, rest) ↔ x.chars ++ rest = cs ∧ x.IsCut rest := by
  constructor
  · exact fun h => ⟨cut?_append h, isCut_of_cut? h⟩
  · rintro ⟨rfl, h⟩
    exact cut?_of_isCut h

end Lexeme

/-! ### Tokens -/

theorem not_point_mem_of_isDigit {ds : List Char} (h : ∀ c ∈ ds, c.isDigit) : '.' ∉ ds := fun hp =>
  ne_point_of_isDigit (h _ hp) rfl

namespace Decimal

theorem not_point_mem_of_exponent? {e : Int} (h : exponent? cs = some e) : '.' ∉ cs := by
  have hdigits {ds : List Char} {negative : Bool}
      (hds : (if ds.isEmpty || !ds.all Char.isDigit then none
        else some (if negative then -(Nat.ofDigitChars 10 ds 0 : Int)
          else Nat.ofDigitChars 10 ds 0)) = some e) : '.' ∉ ds := by
    split at hds
    · cases hds
    · next hall =>
      rw [Bool.or_eq_true, not_or, Bool.not_eq_true', Bool.not_eq_false] at hall
      exact not_point_mem_of_isDigit (List.all_eq_true.1 hall.2)
  unfold exponent? at h
  split at h
  next negative digits heq =>
  split at heq
  · cases heq
    simpa using hdigits h
  · cases heq
    simpa using hdigits h
  · cases heq
    exact hdigits h

/-- Behind the digits of a literal there is no point. -/
theorem count_point_of_ending {d plain : Decimal} {raised : Int → Decimal} {isBare : Bool}
    (h : (if isBare then none
      else match rest with
        | [] => some plain
        | c :: r => if c == 'e' || c == 'E' then (exponent? r).map raised else none) = some d) :
    rest.count '.' = 0 := by
  split at h
  · cases h
  split at h
  · rfl
  split at h
  · next c r hletter =>
    obtain ⟨e, he, -⟩ := Option.map_eq_some_iff.1 h
    have hc : '.' ≠ c := by
      rintro rfl
      exact absurd hletter (by decide)
    exact List.count_eq_zero.2 (by simp [hc, not_point_mem_of_exponent? he])
  · cases h

/-- A literal has at most one point. -/
theorem count_point_le_one {d : Decimal} (h : read? cs = some d) : cs.count '.' ≤ 1 := by
  have hrun (cs : List Char) : cs.count '.' = (cs.dropWhile Char.isDigit).count '.' := by
    have hdigits : (cs.takeWhile Char.isDigit).count '.' = 0 :=
      List.count_eq_zero.2 (not_point_mem_of_isDigit (isRun_takeWhile _ cs).forall_mem)
    have hsplit := List.takeWhile_append_dropWhile (p := Char.isDigit) (l := cs)
    rw [← Nat.zero_add (List.count _ (cs.dropWhile _)), ← hdigits, ← List.count_append, hsplit]
  rw [hrun]
  unfold read? at h
  dsimp only at h
  split at h
  · next r hpoint => rw [hpoint, List.count_cons_self, hrun, count_point_of_ending h]
  · rw [count_point_of_ending h]
    exact Nat.zero_le 1

end Decimal

namespace Lexeme

variable {x : Lexeme} {k : Token} {p : Nat}

theorem numeralValue?_eq_some_iff {value : Float} : numeralValue? text = some value ↔
    ∃ d, Decimal.read? text = some d ∧ (d.toFloat false).isFinite ∧ d.toFloat false = value := by
  simp only [numeralValue?, Option.bind_eq_some_iff, Option.ite_none_right_eq_some,
    Option.some.injEq]

theorem token_eq_ok_iff : x.token p rest = .ok k ↔ x.StandsFor rest k := by
  constructor
  · intro h
    cases x with
    | word text =>
      simp only [token] at h
      split at h
      · cases h
      · next hname =>
        cases h
        exact .word hname
    | numeral text =>
      simp only [token] at h
      split at h
      · next hvalue =>
        cases h
        obtain ⟨d, hread, hfinite, rfl⟩ := numeralValue?_eq_some_iff.1 hvalue
        exact .numeral (Decimal.count_point_le_one hread) hread hfinite
      · cases h
    | sign s =>
      simp only [token] at h
      split at h
      · cases h
      · next hassign =>
        cases h
        exact .sign hassign
    | leftParen =>
      cases h
      exact .leftParen
    | rightParen =>
      cases h
      exact .rightParen
    | comma =>
      cases h
      exact .comma
  · intro h
    cases h with
    | word hname => simp only [token, hname]
    | numeral hpoint hread hfinite =>
      simp only [token, numeralValue?_eq_some_iff.2 ⟨_, hread, hfinite, rfl⟩]
    | sign hassign => exact token_sign hassign p
    | leftParen | rightParen | comma => rfl

/-- What starts with a lexeme starts with no blank. -/
theorem not_isBlank_of_cut? {c : Char} {r : List Char} (h : cut? (c :: r) = some (x, rest)) :
    isBlank c = false := by
  rw [← Bool.not_eq_true]
  intro hblank
  obtain rfl | rfl : c = ' ' ∨ c = '\t' := by simpa [isBlank] using hblank
  · cases h
  · cases h

end Lexeme

/-! ### Cuttings -/

@[simp] theorem spelling_nil : spelling [] = [] := rfl

@[simp] theorem spelling_cons (p : Piece) (ps : List Piece) :
    spelling (p :: ps) = p.chars ++ spelling ps := by
  rw [spelling, spelling, List.flatMap_cons]

theorem utf8Length_append (cs ds : List Char) :
    utf8Length (cs ++ ds) = utf8Length cs + utf8Length ds := by
  rw [utf8Length, String.ofList_append, String.utf8ByteSize_append, utf8Length, utf8Length]

theorem byteLength_eq_utf8Length (cs : List Char) : byteLength cs = utf8Length cs := by
  induction cs with
  | nil => rfl
  | cons c cs ih =>
    have hc : utf8Length [c] = c.utf8Size := by simp [utf8Length]
    rw [byteLength, ih, ← hc, ← utf8Length_append, List.singleton_append]

theorem Lexeme.IsCut.chars_ne_nil {x : Lexeme} (h : x.IsCut rest) : x.chars ≠ [] :=
  Lexeme.chars_ne_nil (Lexeme.cut?_of_isCut h)

namespace Piece

variable {p p' : Piece} {rest' : List Char}

theorem IsCut.chars_ne_nil (h : p.IsCut rest) : p.chars ≠ [] := by
  cases p with
  | blanks text => exact h.1
  | lexeme x => exact Lexeme.IsCut.chars_ne_nil h

/-- A text that starts with a lexeme does not start with blanks. -/
theorem ne_of_isCut {text : List Char} {x : Lexeme} (hb : (blanks text).IsCut rest)
    (hx : (lexeme x).IsCut rest') : text ++ rest ≠ x.chars ++ rest' := by
  intro heq
  obtain ⟨hne, hrun⟩ := hb
  obtain ⟨c, r, rfl⟩ := List.exists_cons_of_ne_nil hne
  have hcut := Lexeme.cut?_of_isCut hx
  rw [← heq, List.cons_append] at hcut
  have hblank := hrun.forall_mem c List.mem_cons_self
  rw [Lexeme.not_isBlank_of_cut? hcut] at hblank
  cases hblank

theorem IsCut.unique (h : p.IsCut rest) (h' : p'.IsCut rest')
    (heq : p.chars ++ rest = p'.chars ++ rest') : p = p' ∧ rest = rest' := by
  cases p with
  | blanks text =>
    cases p' with
    | blanks text' =>
      have htext : text = text' := by
        rw [← h.2.takeWhile_eq, ← h'.2.takeWhile_eq]
        exact congrArg _ heq
      subst htext
      exact ⟨rfl, List.append_cancel_left heq⟩
    | lexeme x => exact absurd heq (ne_of_isCut h h')
  | lexeme x =>
    cases p' with
    | blanks text => exact absurd heq.symm (ne_of_isCut h' h)
    | lexeme x' =>
      have hcut := Lexeme.cut?_of_isCut h
      have hcut' := Lexeme.cut?_of_isCut h'
      have heq : x.chars ++ rest = x'.chars ++ rest' := heq
      rw [heq, hcut'] at hcut
      cases hcut
      exact ⟨rfl, rfl⟩

end Piece

/-- There is at most one way to cut a text. -/
theorem IsCutting.unique {ps ps' : List Piece} (h : IsCutting cs ps) (h' : IsCutting cs ps') :
    ps = ps' := by
  obtain ⟨rfl, hall⟩ := h
  obtain ⟨heq, hall'⟩ := h'
  induction ps generalizing ps' with
  | nil =>
    cases ps' with
    | nil => rfl
    | cons p' ps' =>
      rw [spelling_cons] at heq
      exact absurd (List.append_eq_nil_iff.1 heq).1 hall'.1.chars_ne_nil
  | cons p ps ih =>
    cases ps' with
    | nil =>
      rw [spelling_cons] at heq
      exact absurd (List.append_eq_nil_iff.1 heq.symm).1 hall.1.chars_ne_nil
    | cons p' ps' =>
      rw [spelling_cons, spelling_cons] at heq
      obtain ⟨rfl, hrest⟩ := hall.1.unique hall'.1 heq.symm
      rw [ih hall.2 hrest.symm hall'.2]

/-! ### Scanning -/

section Scanning

variable {position : Nat} {ts : List PlacedToken}

theorem tokensFrom_blanks {bs : List Char} (hbs : ∀ c ∈ bs, isBlank c) (position : Nat)
    (cs : List Char) :
    tokensFrom position (bs ++ cs) = tokensFrom (position + utf8Length bs) cs := by
  rw [← byteLength_eq_utf8Length]
  induction bs generalizing position with
  | nil => rfl
  | cons c bs ih =>
    obtain ⟨hc, hbs⟩ := List.forall_mem_cons.1 hbs
    rw [List.cons_append, tokensFrom_blank hc, ih hbs, byteLength, Nat.add_assoc]

theorem tokensFrom_of_isCut {x : Lexeme} (h : x.IsCut rest) (position : Nat) :
    tokensFrom position (x.chars ++ rest) = (do
      let token ← x.token position rest
      let tokens ← tokensFrom (position + utf8Length x.chars) rest
      return ⟨token, position⟩ :: tokens) := by
  have hcut := Lexeme.cut?_of_isCut h
  rw [← byteLength_eq_utf8Length]
  generalize x.chars ++ rest = cs at hcut ⊢
  cases cs with
  | nil => cases hcut
  | cons c r => exact tokensFrom_lexeme (Lexeme.not_isBlank_of_cut? hcut) hcut position

/-- The tokens of a text are those of the lexemes of its cutting. -/
theorem tokensFrom_eq_ok_iff {cs : List Char} : tokensFrom position cs = .ok ts ↔
    ∃ ps, IsCutting cs ps ∧ List.Forall₂ PlacedLexeme.StandsFor (lexemesFrom position ps) ts := by
  constructor
  · intro h
    induction hlength : cs.length using Nat.strongRecOn generalizing cs position ts with
    | ind n ih =>
      subst hlength
      cases cs with
      | nil =>
        rw [tokensFrom] at h
        cases h
        exact ⟨[], ⟨rfl, trivial⟩, .nil⟩
      | cons c r =>
        cases hc : isBlank c with
        | true =>
          -- the blanks go to the end of their run, and what is behind them is shorter
          have hsplit := List.takeWhile_append_dropWhile (p := isBlank) (l := c :: r)
          have hrun := isRun_takeWhile isBlank (c :: r)
          have hne : (c :: r).takeWhile isBlank ≠ [] := by simp [hc]
          have hlength := congrArg List.length hsplit
          rw [List.length_append] at hlength
          have hpos := List.length_pos_iff.2 hne
          rw [← hsplit, tokensFrom_blanks hrun.forall_mem] at h
          obtain ⟨ps, ⟨hspelled, hps⟩, hall⟩ := ih _ (by omega) h rfl
          refine ⟨.blanks ((c :: r).takeWhile isBlank) :: ps, ⟨?_, ⟨hne, ?_⟩, hps⟩, hall⟩
          · rw [spelling_cons, hspelled]
            exact hsplit
          · rwa [hspelled]
        | false =>
          cases hcut : Lexeme.cut? (c :: r) with
          | none =>
            rw [tokensFrom_none hc hcut] at h
            cases h
          | some cut =>
            obtain ⟨x, rest⟩ := cut
            rw [tokensFrom_lexeme hc hcut] at h
            obtain ⟨k, htoken, h⟩ := bind_eq_ok.1 h
            obtain ⟨us, hus, h⟩ := bind_eq_ok.1 h
            cases h
            obtain ⟨hspelled, hx⟩ := Lexeme.cut?_eq_some_iff.1 hcut
            rw [byteLength_eq_utf8Length] at hus
            obtain ⟨ps, ⟨rfl, hps⟩, hall⟩ := ih _ (Lexeme.length_cut?_lt hcut) hus rfl
            refine ⟨.lexeme x :: ps, ⟨?_, hx, hps⟩, ?_⟩
            · rw [spelling_cons]
              exact hspelled
            · exact .cons ⟨Lexeme.token_eq_ok_iff.1 htoken, rfl⟩ hall
  · rintro ⟨ps, ⟨rfl, hps⟩, hall⟩
    induction ps generalizing position ts with
    | nil =>
      cases hall
      rw [spelling_nil, tokensFrom]
    | cons p ps ih =>
      rw [spelling_cons]
      cases p with
      | blanks text =>
        rw [Piece.chars, tokensFrom_blanks hps.1.2.forall_mem]
        exact ih hall hps.2
      | lexeme x =>
        rw [Piece.chars, tokensFrom_of_isCut hps.1]
        obtain ⟨⟨k, q⟩, us, ⟨hx, rfl⟩, hrest, rfl⟩ := List.forall₂_cons_left_iff.1 hall
        exact bind_eq_ok.2 ⟨k, Lexeme.token_eq_ok_iff.2 hx, bind_eq_ok.2 ⟨us, ih hrest hps.2, rfl⟩⟩

end Scanning

/-! ### Positions -/

section Positions

variable {position : Nat} {ps : List Piece} {ts : List PlacedToken}

theorem utf8Length_pos (h : text ≠ []) : 0 < utf8Length text := by
  obtain ⟨c, r, rfl⟩ := List.exists_cons_of_ne_nil h
  rw [← byteLength_eq_utf8Length, byteLength]
  have := c.utf8Size_pos
  omega

/-- A lexeme is found behind what is written in front of it. -/
theorem exists_before_of_mem_lexemesFrom {l : PlacedLexeme} (hl : l ∈ lexemesFrom position ps) :
    ∃ before, spelling ps = before ++ (l.lexeme.chars ++ l.rest) ∧
      l.position = position + utf8Length before := by
  induction ps generalizing position with
  | nil => cases hl
  | cons p ps ih =>
    cases p with
    | blanks text =>
      obtain ⟨before, hspelled, hposition⟩ := ih hl
      refine ⟨text ++ before, ?_, ?_⟩
      · rw [spelling_cons, hspelled, Piece.chars, List.append_assoc]
      · rw [hposition, utf8Length_append, Nat.add_assoc]
    | lexeme x =>
      rcases List.mem_cons.1 hl with rfl | hl
      · exact ⟨[], by rw [spelling_cons, Piece.chars, List.nil_append], rfl⟩
      · obtain ⟨before, hspelled, hposition⟩ := ih hl
        refine ⟨x.chars ++ before, ?_, ?_⟩
        · rw [spelling_cons, hspelled, Piece.chars, List.append_assoc]
        · rw [hposition, utf8Length_append, Nat.add_assoc]

theorem pairwise_lexemesFrom (h : AllCut ps) (position : Nat) :
    (lexemesFrom position ps).Pairwise fun l m => l.position < m.position := by
  induction ps generalizing position with
  | nil => exact .nil
  | cons p ps ih =>
    cases p with
    | blanks text => exact ih h.2 _
    | lexeme x =>
      refine .cons (fun l hl => ?_) (ih h.2 _)
      obtain ⟨before, -, hposition⟩ := exists_before_of_mem_lexemesFrom hl
      have hx := utf8Length_pos (Lexeme.IsCut.chars_ne_nil h.1)
      dsimp only
      omega

theorem map_position_of_standsFor {ls : List PlacedLexeme}
    (h : List.Forall₂ PlacedLexeme.StandsFor ls ts) :
    ts.map (·.position) = ls.map (·.position) := by
  induction h with
  | nil => rfl
  | cons hx _ ih => rw [List.map_cons, List.map_cons, ih, hx.2]

theorem exists_standsFor {ls : List PlacedLexeme} (h : ∀ l ∈ ls, l.IsAllowed) :
    ∃ ts, List.Forall₂ PlacedLexeme.StandsFor ls ts := by
  induction ls with
  | nil => exact ⟨[], .nil⟩
  | cons l ls ih =>
    obtain ⟨⟨k, hk⟩, hls⟩ := List.forall_mem_cons.1 h
    obtain ⟨ts, hts⟩ := ih hls
    exact ⟨⟨k, l.position⟩ :: ts, .cons ⟨hk, rfl⟩ hts⟩

end Positions

theorem Lexeme.StandsFor.number_finite {x : Lexeme} {value : Float}
    (h : x.StandsFor rest (.number value)) :
    value.isFinite ∧ Binary64.isNegative value = false := by
  cases h with
  | @numeral text d _ _ hfinite =>
    obtain ⟨b, hb, heq⟩ := Decimal.exists_toFloat_eq false d
    rw [heq] at hfinite ⊢
    exact ⟨hfinite, Binary64.isNegative_ofSignBits hb⟩

theorem forall_of_standsFor {P : PlacedToken → Prop} {ls : List PlacedLexeme}
    {ts : List PlacedToken} (hP : ∀ (l : PlacedLexeme) (t : PlacedToken), l.StandsFor t → P t)
    (h : List.Forall₂ PlacedLexeme.StandsFor ls ts) : ∀ t ∈ ts, P t := by
  induction h with
  | nil => exact List.forall_mem_nil _
  | cons hx _ ih => exact List.forall_mem_cons.2 ⟨hP _ _ hx, ih⟩

theorem isAllowed_of_standsFor {ls : List PlacedLexeme} {ts : List PlacedToken}
    (h : List.Forall₂ PlacedLexeme.StandsFor ls ts) : ∀ l ∈ ls, l.IsAllowed := by
  induction h with
  | nil => exact List.forall_mem_nil _
  | cons hx _ ih => exact List.forall_mem_cons.2 ⟨⟨_, hx.1⟩, ih⟩

/-- Scanning accepts the texts of the lexical grammar, and loses nothing of them. -/
theorem tokenize_follows_grammar (text : String) : FollowsLexicalGrammar text where
  accepts_iff := by
    constructor
    · rintro ⟨ts, h⟩
      obtain ⟨ps, hps, hall⟩ := tokensFrom_eq_ok_iff.1 h
      exact ⟨ps, hps, isAllowed_of_standsFor hall⟩
    · rintro ⟨ps, hps, hallowed⟩
      obtain ⟨ts, hts⟩ := exists_standsFor hallowed
      exact ⟨ts, tokensFrom_eq_ok_iff.2 ⟨ps, hps, hts⟩⟩
  cutting_unique ps ps' := IsCutting.unique
  standsFor ts h := tokensFrom_eq_ok_iff.1 h
  position_eq ps hps l hl := by
    obtain ⟨before, hspelled, hposition⟩ := exists_before_of_mem_lexemesFrom hl
    exact ⟨before, hps.1 ▸ hspelled, by rw [hposition, Nat.zero_add]⟩
  increasing ts h := by
    obtain ⟨ps, hps, hall⟩ := tokensFrom_eq_ok_iff.1 h
    have hlexemes := pairwise_lexemesFrom hps.2 0
    rw [← List.pairwise_map (f := PlacedLexeme.position) (R := (· < ·)),
      ← map_position_of_standsFor hall, List.pairwise_map] at hlexemes
    exact hlexemes
  number_finite ts h := by
    obtain ⟨ps, hps, hall⟩ := tokensFrom_eq_ok_iff.1 h
    refine forall_of_standsFor (fun l t hlt value hvalue => ?_) hall
    exact Lexeme.StandsFor.number_finite (hvalue ▸ hlt.1)

end CharacterSheet
