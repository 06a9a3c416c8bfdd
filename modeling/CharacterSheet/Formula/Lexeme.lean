import CharacterSheet.Formula.Error
import CharacterSheet.Formula.Token

/-!
# Cutting a formula into lexemes

A lexeme is a longest run of characters that can only belong together. Cutting looks at no more
than the shape of the text; what a lexeme means, and whether it is allowed, comes afterwards.

* `Lexeme` — words, numerals, signs and punctuation;
* `spanNumeral` — the longest run that starts like a numeral: digits and points, an exponent, and
  the word characters that would be taken for its ending;
* `Lexeme.cut?` — the lexeme at the front of a text, and the text behind it;
* `Lexeme.cut?_append`, `Lexeme.length_cut?_lt` — cutting loses nothing, and takes at least one
  character.
-/

namespace CharacterSheet

/-- A space or a tab. -/
def isBlank (c : Char) : Bool := c == ' ' || c == '\t'

/-- A character that can start a word. -/
def isWordStart (c : Char) : Bool := c == '_' || c.isAlpha

/-- A character that can continue a word. -/
def isWordChar (c : Char) : Bool := c == '_' || c.isAlphanum

/-- A lexeme. Words and numerals keep the characters they are written with. -/
inductive Lexeme
  | word (text : List Char)
  | numeral (text : List Char)
  | sign (sign : Sign)
  | leftParen
  | rightParen
  | comma
  deriving DecidableEq, Repr

/-- The characters of a lexeme. -/
def Lexeme.chars : Lexeme → List Char
  | word text => text
  | numeral text => text
  | sign s => s.text.toList
  | leftParen => ['(']
  | rightParen => [')']
  | comma => [',']

/-- The exponent at the front of a text: its letter, at most one sign, and digits, of which there
may be none. -/
def spanExponent : List Char → List Char × List Char
  | [] => ([], [])
  | c :: r =>
    if c == 'e' || c == 'E' then
      match r with
      | s :: r' =>
        if s == '+' || s == '-' then
          (c :: s :: r'.takeWhile Char.isDigit, r'.dropWhile Char.isDigit)
        else (c :: r.takeWhile Char.isDigit, r.dropWhile Char.isDigit)
      | [] => ([c], [])
    else ([], c :: r)

/-- A character of the digits and points of a numeral. -/
def isDigitOrPoint (c : Char) : Bool := c.isDigit || c == '.'

/-- The longest run at the front of a text that has the shape of a numeral. -/
def spanNumeral (cs : List Char) : List Char × List Char :=
  let digits := cs.takeWhile isDigitOrPoint
  let (exponent, rest) := spanExponent (cs.dropWhile isDigitOrPoint)
  (digits ++ (exponent ++ rest.takeWhile isWordChar), rest.dropWhile isWordChar)

/-- The longest sign at the front of a text. -/
def Sign.cut? : List Char → Option (Sign × List Char)
  | '*' :: '*' :: r => some (doubleStar, r)
  | '*' :: r => some (star, r)
  | '/' :: '/' :: r => some (doubleSlash, r)
  | '/' :: r => some (slash, r)
  | '<' :: '<' :: r => some (doubleLess, r)
  | '>' :: '>' :: r => some (doubleGreater, r)
  | '+' :: r => some (plus, r)
  | '-' :: r => some (minus, r)
  | '%' :: r => some (percent, r)
  | '|' :: r => some (pipe, r)
  | '&' :: r => some (ampersand, r)
  | '^' :: r => some (caret, r)
  | '~' :: r => some (tilde, r)
  | _ => none

/-- Whether a text starts like a numeral: with a digit, or with a point and a digit. -/
def startsNumeral : List Char → Bool
  | '.' :: d :: _ => d.isDigit
  | c :: _ => c.isDigit
  | [] => false

/-- The lexeme at the front of a text that starts with no blank, and the text behind it. -/
def Lexeme.cut? (cs : List Char) : Option (Lexeme × List Char) :=
  match cs with
  | [] => none
  | c :: r =>
    if startsNumeral (c :: r) then
      let (text, rest) := spanNumeral (c :: r)
      some (numeral text, rest)
    else if isWordStart c then
      some (word (c :: r.takeWhile isWordChar), r.dropWhile isWordChar)
    else if c == '(' then some (leftParen, r)
    else if c == ')' then some (rightParen, r)
    else if c == ',' then some (comma, r)
    else (Sign.cut? (c :: r)).map fun (s, rest) => (sign s, rest)

theorem spanExponent_append (cs : List Char) : (spanExponent cs).1 ++ (spanExponent cs).2 = cs := by
  unfold spanExponent
  repeat' split
  all_goals simp

theorem spanNumeral_append (cs : List Char) : (spanNumeral cs).1 ++ (spanNumeral cs).2 = cs := by
  simp [spanNumeral, spanExponent_append]

theorem Sign.cut?_append {cs : List Char} {s : Sign} {rest : List Char}
    (h : Sign.cut? cs = some (s, rest)) : s.text.toList ++ rest = cs := by
  unfold Sign.cut? at h
  split at h <;> cases h <;> rfl

/-- A lexeme and what follows it make up the text. -/
theorem Lexeme.cut?_append {cs : List Char} {x : Lexeme} {rest : List Char}
    (h : Lexeme.cut? cs = some (x, rest)) : x.chars ++ rest = cs := by
  cases cs with
  | nil => cases h
  | cons c r =>
    simp only [Lexeme.cut?, beq_iff_eq] at h
    repeat' split at h
    · cases h
      exact spanNumeral_append _
    · cases h
      simp [Lexeme.chars]
    · cases h
      simp_all [Lexeme.chars]
    · cases h
      simp_all [Lexeme.chars]
    · cases h
      simp_all [Lexeme.chars]
    · obtain ⟨⟨s, rest'⟩, hs, he⟩ := Option.map_eq_some_iff.1 h
      cases he
      exact Sign.cut?_append hs

theorem Sign.text_ne_nil (s : Sign) : s.text.toList ≠ [] := by
  cases s <;> decide

theorem startsNumeral_head {c : Char} {r : List Char} (h : startsNumeral (c :: r)) :
    isDigitOrPoint c := by
  unfold startsNumeral at h
  split at h <;> simp_all [isDigitOrPoint]

theorem Lexeme.chars_ne_nil {cs : List Char} {x : Lexeme} {rest : List Char}
    (h : Lexeme.cut? cs = some (x, rest)) : x.chars ≠ [] := by
  cases cs with
  | nil => cases h
  | cons c r =>
    simp only [Lexeme.cut?, beq_iff_eq] at h
    repeat' split at h
    · rename_i hc
      cases h
      simp [Lexeme.chars, spanNumeral, startsNumeral_head hc]
    · cases h
      simp [Lexeme.chars]
    · cases h
      simp [Lexeme.chars]
    · cases h
      simp [Lexeme.chars]
    · cases h
      simp [Lexeme.chars]
    · obtain ⟨⟨s, rest'⟩, -, he⟩ := Option.map_eq_some_iff.1 h
      cases he
      exact Sign.text_ne_nil s

/-- What follows a lexeme is shorter than the text it was cut from. -/
theorem Lexeme.length_cut?_lt {cs : List Char} {x : Lexeme} {rest : List Char}
    (h : Lexeme.cut? cs = some (x, rest)) : rest.length < cs.length := by
  have hlen := congrArg List.length (Lexeme.cut?_append h)
  have hpos := List.length_pos_iff.2 (Lexeme.chars_ne_nil h)
  simp only [List.length_append] at hlen
  omega

end CharacterSheet
