import Mathlib.Data.List.Forall2
import CharacterSheet.Formula.Token.Scan

/-!
# The lexical grammar of formulas

How a text is made up of blanks and lexemes, as rules: each piece goes on for as long as it can, and
each lexeme has to be one that formulas allow. The rules do not say how the pieces are found.

* `IsRun`, `IsExponent` — a text goes on as long as it can in front of another one;
* `Lexeme.IsCut`, `Lexeme.StandsFor` — the shapes of lexemes, and the tokens they stand for;
* `Piece`, `IsCutting` — a text cut into blanks and lexemes from the left;
* `lexemesFrom` — the lexemes of a cutting, each with the byte at which it starts;
* `FollowsLexicalGrammar` — the tokens of a text are those of the lexemes of its cutting.
-/

namespace CharacterSheet

/-- In front of `rest`, the text is a longest run of characters of a class. -/
structure IsRun (p : Char → Bool) (text rest : List Char) : Prop where
  forall_mem : ∀ c ∈ text, p c
  stops : ∀ c ∈ rest.head?, p c = false

/-- A text starts like a numeral: with a digit, or with a point and a digit. -/
inductive StartsWithNumeral : List Char → Prop
  | digit {d : Char} {r : List Char} (hd : d.isDigit) : StartsWithNumeral (d :: r)
  | point {d : Char} {r : List Char} (hd : d.isDigit) : StartsWithNumeral ('.' :: d :: r)

/-- The exponent of a numeral in front of `rest`: nothing, where no letter of an exponent follows,
or else the letter, a sign if there is one, and all digits that follow. -/
inductive IsExponent : (text rest : List Char) → Prop
  | none {rest : List Char} (h : ∀ c ∈ rest.head?, c ≠ 'e' ∧ c ≠ 'E') : IsExponent [] rest
  | unsigned {c : Char} {digits rest : List Char} (hc : c = 'e' ∨ c = 'E')
    (hsign : ∀ s ∈ (digits ++ rest).head?, s ≠ '+' ∧ s ≠ '-')
    (hdigits : IsRun Char.isDigit digits rest) : IsExponent (c :: digits) rest
  | signed {c s : Char} {digits rest : List Char} (hc : c = 'e' ∨ c = 'E') (hs : s = '+' ∨ s = '-')
    (hdigits : IsRun Char.isDigit digits rest) : IsExponent (c :: s :: digits) rest

/-- A lexeme goes on as long as it can in front of `rest`. -/
inductive Lexeme.IsCut : Lexeme → (rest : List Char) → Prop
  | word {c : Char} {r rest : List Char} (hc : isWordStart c) (hr : IsRun isWordChar r rest) :
    IsCut (.word (c :: r)) rest
  /-- Word characters behind a number belong to it, although they make it malformed. -/
  | numeral {digits exponent ending rest : List Char}
    (hstart : StartsWithNumeral (digits ++ (exponent ++ (ending ++ rest))))
    (hdigits : IsRun isDigitOrPoint digits (exponent ++ (ending ++ rest)))
    (hexponent : IsExponent exponent (ending ++ rest)) (hending : IsRun isWordChar ending rest) :
    IsCut (.numeral (digits ++ (exponent ++ ending))) rest
  /-- No longer sign stands at the same place. -/
  | sign {s : Sign} {rest : List Char} (hlongest : ∀ s' : Sign,
      s'.text.toList <+: s.text.toList ++ rest → s'.text.length ≤ s.text.length) :
    IsCut (.sign s) rest
  | leftParen {rest : List Char} : IsCut .leftParen rest
  | rightParen {rest : List Char} : IsCut .rightParen rest
  | comma {rest : List Char} : IsCut .comma rest

/-- The token that a lexeme stands for in front of `rest`. Reserved words, numerals that are no
finite number and signs in front of `=` stand for none. -/
inductive Lexeme.StandsFor (rest : List Char) : Lexeme → Token → Prop
  | word {text : List Char} (hname : Construct.ofWord? (String.ofList text) = none) :
    StandsFor rest (.word text) (.name (String.ofList text))
  | numeral {text : List Char} {d : Decimal} (hpoint : text.count '.' ≤ 1)
    (hread : Decimal.read? text = some d) (hfinite : (d.toFloat false).isFinite) :
    StandsFor rest (.numeral text) (.number (d.toFloat false))
  | sign {s : Sign} (hassign : rest.head? ≠ some '=') : StandsFor rest (.sign s) (.sign s)
  | leftParen : StandsFor rest .leftParen .leftParen
  | rightParen : StandsFor rest .rightParen .rightParen
  | comma : StandsFor rest .comma .comma

/-- A piece of a text. -/
inductive Piece
  | blanks (text : List Char)
  | lexeme (x : Lexeme)
  deriving DecidableEq, Repr

/-- The characters of a piece. -/
def Piece.chars : Piece → List Char
  | blanks text => text
  | lexeme x => x.chars

/-- A piece goes on as long as it can in front of `rest`. -/
def Piece.IsCut : Piece → (rest : List Char) → Prop
  | blanks text, rest => text ≠ [] ∧ IsRun isBlank text rest
  | lexeme x, rest => x.IsCut rest

/-- The text of some pieces. -/
def spelling (ps : List Piece) : List Char := ps.flatMap Piece.chars

/-- Each of some pieces goes on as long as it can in front of the others. -/
def AllCut : List Piece → Prop
  | [] => True
  | p :: ps => p.IsCut (spelling ps) ∧ AllCut ps

/-- A whole text cut into pieces, from the left. -/
def IsCutting (cs : List Char) (ps : List Piece) : Prop := spelling ps = cs ∧ AllCut ps

/-- The number of bytes of a text in UTF-8. -/
def utf8Length (cs : List Char) : Nat := (String.ofList cs).utf8ByteSize

/-- A lexeme in a text, with the byte at which it starts and the text behind it. -/
structure PlacedLexeme where
  lexeme : Lexeme
  position : Nat
  rest : List Char
  deriving DecidableEq, Repr

/-- The lexemes of some pieces, of which the first starts at the byte `position`. -/
def lexemesFrom (position : Nat) : List Piece → List PlacedLexeme
  | [] => []
  | .blanks text :: ps => lexemesFrom (position + utf8Length text) ps
  | .lexeme x :: ps => ⟨x, position, spelling ps⟩ :: lexemesFrom (position + utf8Length x.chars) ps

/-- Where a lexeme starts in a text: behind as many bytes as stand in front of it. -/
def PlacedLexeme.IsIn (l : PlacedLexeme) (cs : List Char) : Prop :=
  ∃ before, cs = before ++ (l.lexeme.chars ++ l.rest) ∧ l.position = utf8Length before

/-- A lexeme stands for a token where it is. -/
def PlacedLexeme.IsAllowed (l : PlacedLexeme) : Prop := ∃ k, l.lexeme.StandsFor l.rest k

/-- A lexeme stands for a token, and the token is where the lexeme is. -/
def PlacedLexeme.StandsFor (l : PlacedLexeme) (t : PlacedToken) : Prop :=
  l.lexeme.StandsFor l.rest t.token ∧ t.position = l.position

/-- The tokens of a text are found by the lexical grammar. -/
structure FollowsLexicalGrammar (text : String) : Prop where
  /-- There are tokens if the text can be cut to its end into lexemes that are allowed. -/
  accepts_iff : (∃ ts, tokenize text = .ok ts) ↔
    ∃ ps, IsCutting text.toList ps ∧ ∀ l ∈ lexemesFrom 0 ps, l.IsAllowed
  /-- A text is cut in one way only. -/
  cutting_unique : ∀ ps ps', IsCutting text.toList ps → IsCutting text.toList ps' → ps = ps'
  /-- The tokens are what the lexemes stand for, one by one. -/
  standsFor : ∀ ts, tokenize text = .ok ts →
    ∃ ps, IsCutting text.toList ps ∧ List.Forall₂ PlacedLexeme.StandsFor (lexemesFrom 0 ps) ts
  /-- A lexeme is where it starts in the text. -/
  position_eq : ∀ ps, IsCutting text.toList ps → ∀ l ∈ lexemesFrom 0 ps, l.IsIn text.toList
  increasing : ∀ ts, tokenize text = .ok ts → ts.Pairwise fun t u => t.position < u.position
  /-- Numbers are finite, and have no sign. -/
  number_finite : ∀ ts, tokenize text = .ok ts → ∀ t ∈ ts, ∀ value, t.token = .number value →
    value.isFinite ∧ Binary64.isNegative value = false

end CharacterSheet
