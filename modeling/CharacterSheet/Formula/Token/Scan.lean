import CharacterSheet.Formula.Lexeme

/-!
# From text to tokens

The first line of defence of formulas against text that is none: whatever introduces a construct
of a general-purpose language is turned away here, by the name of the construct.

* `Construct.ofWord?` — the words that are no names, and what they introduce;
* `rejection` — why a character that starts no lexeme is turned away;
* `Lexeme.token` — the token that a lexeme stands for, if it is allowed;
* `tokenize` — the tokens of a text with their positions, or the first thing wrong in it.
-/

namespace CharacterSheet

/-- The construct that a reserved word introduces. -/
def Construct.ofWord? (word : String) : Option Construct :=
  if word ∈ ["if", "else", "elif"] then some conditional
  else if word = "lambda" then some lambda
  else if word ∈ ["for", "in", "while"] then some comprehension
  else if word ∈ ["and", "or", "not", "is"] then some booleanLogic
  else if word ∈ ["import", "from", "def", "class", "return", "yield", "await", "async", "del",
      "global", "nonlocal", "pass", "raise", "try", "except", "finally", "with", "as", "assert",
      "break", "continue"] then some statement
  else none

/-- Why a character that starts no lexeme is turned away, given the text behind it. -/
def rejection (position : Nat) (c : Char) (rest : List Char) : ParseError :=
  match c with
  | '<' | '>' | '!' => .disallowed .comparison position
  | '=' => .disallowed (if rest.head? = some '=' then .comparison else .assignment) position
  | '.' => .disallowed .attributeAccess position
  | '[' | ']' | '\x7b' | '\x7d' => .disallowed .subscript position
  | '\x27' | '\x22' => .disallowed .stringLiteral position
  | ';' => .disallowed .statementSeparator position
  | ':' | '@' | '\\' => .disallowed .operator position
  | '#' => .comment position
  | '\n' | '\r' => .multiline
  | other => .unexpectedCharacter other position

/-- The value of a numeral, if it is well formed and within the range of doubles. -/
def numeralValue? (text : List Char) : Option Float :=
  (Decimal.read? text).bind fun d =>
    let value := d.toFloat false
    if value.isFinite then some value else none

/-- The token that a lexeme stands for, given its position and the text behind it. A word may be
reserved, a numeral malformed, and a sign the beginning of an assignment such as `+=`. -/
def Lexeme.token (position : Nat) (rest : List Char) : Lexeme → Except ParseError Token
  | .word text =>
    match Construct.ofWord? (String.ofList text) with
    | some construct => .error (.disallowed construct position)
    | none => .ok (.name (String.ofList text))
  | .numeral text =>
    match numeralValue? text with
    | some value => .ok (.number value)
    | none => .error (.malformedNumber (String.ofList text) position)
  | .sign s =>
    if rest.head? = some '=' then .error (.disallowed .assignment position) else .ok (.sign s)
  | .leftParen => .ok .leftParen
  | .rightParen => .ok .rightParen
  | .comma => .ok .comma

/-- The number of bytes of a text in UTF-8. -/
def byteLength : List Char → Nat
  | [] => 0
  | c :: cs => c.utf8Size + byteLength cs

/-- The tokens of a text whose first character is at the byte `position`. -/
def tokensFrom (position : Nat) (cs : List Char) : Except ParseError (List PlacedToken) :=
  match cs with
  | [] => .ok []
  | c :: r =>
    if isBlank c then tokensFrom (position + c.utf8Size) r
    else
      match _h : Lexeme.cut? (c :: r) with
      | none => .error (rejection position c r)
      | some (x, rest) => do
        let token ← x.token position rest
        let tokens ← tokensFrom (position + byteLength x.chars) rest
        return ⟨token, position⟩ :: tokens
termination_by cs.length
decreasing_by
  · simp
  · exact Lexeme.length_cut?_lt _h

/-- The tokens of a text, each with the byte at which it starts, or the first thing in the text
that is no token. -/
def tokenize (text : String) : Except ParseError (List PlacedToken) := tokensFrom 0 text.toList

end CharacterSheet
