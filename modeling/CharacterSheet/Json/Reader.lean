import CharacterSheet.Decimal.Basic
import CharacterSheet.Json

/-!
# Reading JSON

Documents nest at most `maxNesting` deep. A reader of depth `n` is built from one of depth `n - 1`,
and every reader takes at least one character, so loops over items and fields end.

* `Json.ofText?` — the value of a document. Of fields with one name the last counts.
-/

namespace CharacterSheet.Json

/-- A value read off the front of a text, and the text behind it, shorter than `bound`. -/
structure Read (α : Type) (bound : Nat) where
  value : α
  rest : List Char
  length_rest : rest.length < bound

namespace Read

variable {α β : Type} {m n : Nat}

/-- The same reading under a larger bound. -/
def weaken (p : Read α m) (h : m ≤ n) : Read α n :=
  ⟨p.value, p.rest, Nat.lt_of_lt_of_le p.length_rest h⟩

/-- The same text read as another value. -/
def map (f : α → β) (p : Read α m) : Read β m := ⟨f p.value, p.rest, p.length_rest⟩

end Read

/-- Reads a value off the front of a text, taking at least one character. -/
abbrev TextReader (α : Type) := (cs : List Char) → Option (Read α cs.length)

/-- The greatest nesting of arrays and objects. -/
def maxNesting : Nat := 128

/-- A blank between the parts of a document. -/
def isBlank (c : Char) : Bool := c == ' ' || c == '\t' || c == '\n' || c == '\r'

/-- A text without the blanks at its front. -/
def skipBlanks (cs : List Char) : List Char := cs.dropWhile isBlank

theorem length_dropWhile_le {α : Type} (p : α → Bool) (l : List α) :
    (l.dropWhile p).length ≤ l.length :=
  (List.dropWhile_suffix p).length_le

/-- Skips blanks before and after reading. -/
def spaced {α : Type} (reader : TextReader α) : TextReader α := fun cs => do
  let r ← reader (skipBlanks cs)
  return ⟨r.value, skipBlanks r.rest, by
    have h₁ := r.length_rest
    have h₂ := length_dropWhile_le isBlank r.rest
    have h₃ := length_dropWhile_le isBlank cs
    simp only [skipBlanks] at *
    omega⟩

/-- The value of a hexadecimal digit. -/
def hexDigit? (c : Char) : Option Nat :=
  if c.isDigit then some (c.toNat - 48)
  else if 'a' ≤ c ∧ c ≤ 'f' then some (c.toNat - 87)
  else if 'A' ≤ c ∧ c ≤ 'F' then some (c.toNat - 55)
  else none

/-- The character that a one-letter escape stands for. -/
def simpleEscape? (c : Char) : Option Char :=
  match c with
  | '\x22' | '\\' | '/' => some c
  | 'b' => some '\x08'
  | 'f' => some '\x0c'
  | 'n' => some '\n'
  | 'r' => some '\r'
  | 't' => some '\t'
  | _ => none

/-- The inside of a string up to its closing quote, as code points and halves of pairs. -/
def stringUnits : List Char → Option (List Nat × List Char)
  | '\x22' :: r => some ([], r)
  | '\\' :: 'u' :: a :: b :: c :: d :: r => do
    let a ← hexDigit? a
    let b ← hexDigit? b
    let c ← hexDigit? c
    let d ← hexDigit? d
    let (units, rest) ← stringUnits r
    return ((((a * 16 + b) * 16 + c) * 16 + d) :: units, rest)
  | '\\' :: e :: r => do
    let c ← simpleEscape? e
    let (units, rest) ← stringUnits r
    return (c.toNat :: units, rest)
  | c :: r => do
    let (units, rest) ← stringUnits r
    return (c.toNat :: units, rest)
  | [] => none

/-- Joins halves of pairs to characters. A half that stands alone is no character. -/
def joinUnits : List Nat → Option (List Char)
  | [] => some []
  | [u] => if u < 0xD800 ∨ 0xE000 ≤ u then some [Char.ofNat u] else none
  | u :: v :: us =>
    if u < 0xD800 ∨ 0xE000 ≤ u then (joinUnits (v :: us)).map (Char.ofNat u :: ·)
    else if u < 0xDC00 ∧ 0xDC00 ≤ v ∧ v < 0xE000 then
      (joinUnits us).map (Char.ofNat (0x10000 + (u - 0xD800) * 0x400 + (v - 0xDC00)) :: ·)
    else none

theorem length_stringUnits_lt {cs : List Char} {units : List Nat} {rest : List Char}
    (h : stringUnits cs = some (units, rest)) : rest.length < cs.length := by
  fun_induction stringUnits cs generalizing units rest <;>
    simp_all [Option.bind_eq_some_iff] <;> grind

/-- Reads a string whose opening quote has been taken. -/
def stringBody : TextReader String := fun cs =>
  match _h : stringUnits cs with
  | some (units, rest) => do
    let chars ← joinUnits units
    return ⟨String.ofList chars, rest, length_stringUnits_lt _h⟩
  | none => none

/-- Whether the digits of a number start as they must: with one digit, or with one that is not
zero, and with a digit behind a point. -/
def isNumberText : List Char → Bool
  | '0' :: c :: r => !c.isDigit && pointOk (c :: r)
  | c :: r => c.isDigit && pointOk r
  | [] => false
where
  /-- Whether the first point has a digit behind it. -/
  pointOk (cs : List Char) : Bool :=
    match cs.dropWhile Char.isDigit with
    | '.' :: c :: _ => c.isDigit
    | ['.'] => false
    | _ => true

/-- The value of a number without its sign. -/
def numberValue? (negative : Bool) (cs : List Char) : Option Json :=
  if !isNumberText cs then none
  else if cs.all Char.isDigit then
    let n := Nat.ofDigitChars 10 cs 0
    if negative then
      if n = 0 ∨ UInt64.size / 2 < n then some (real (Decimal.toFloat true ⟨n, 0⟩))
      else some (integer (-n))
    else if n < UInt64.size then some (integer n) else some (real (Decimal.toFloat false ⟨n, 0⟩))
  else do
    let d ← Decimal.read? cs
    let x := d.toFloat negative
    if x.isFinite then some (real x) else none

/-- A character that a number may hold. -/
def isNumberChar (c : Char) : Bool :=
  c.isDigit || c == '.' || c == '-' || c == '+' || c == 'e' || c == 'E'

/-- Reads a number. -/
def number : TextReader Json
  | [] => none
  | c :: r => do
    let v ← if c == '-' then numberValue? true (r.takeWhile isNumberChar)
      else numberValue? false (c :: r.takeWhile isNumberChar)
    return ⟨v, r.dropWhile isNumberChar,
      Nat.lt_succ_of_le (length_dropWhile_le isNumberChar r)⟩

/-- Reads items between commas up to the closing bracket. -/
def items (item : TextReader Json) : TextReader (List Json) := fun cs =>
  match spaced item cs with
  | none => none
  | some first =>
    match _h : first.rest with
    | ',' :: rest => do
      let others ← items item rest
      return (others.map (first.value :: ·)).weaken
        (by have := first.length_rest; simp only [_h, List.length_cons] at this; omega)
    | ']' :: rest =>
      some ⟨[first.value], rest,
        by have := first.length_rest; simp only [_h, List.length_cons] at this; omega⟩
    | _ => none
termination_by cs => cs.length
decreasing_by
  have := first.length_rest
  simp only [_h, List.length_cons] at this
  omega

/-- Reads the quoted name of a field. -/
def fieldName : TextReader String
  | '\x22' :: r => (stringBody r).map fun s => s.weaken (by simp only [List.length_cons]; omega)
  | _ => none

/-- Reads a field: its name, a colon and its value. -/
def field (item : TextReader Json) : TextReader (String × Json) := fun cs => do
  let name ← spaced fieldName cs
  match _h : name.rest with
  | ':' :: rest =>
    let v ← spaced item rest
    return (v.map fun v => (name.value, v)).weaken
      (by have := name.length_rest; simp only [_h, List.length_cons] at this; omega)
  | _ => none

/-- Reads fields between commas up to the closing brace. -/
def fields (item : TextReader Json) : TextReader (List (String × Json)) := fun cs =>
  match field item cs with
  | none => none
  | some first =>
    match _h : first.rest with
    | ',' :: rest => do
      let others ← fields item rest
      return (others.map (first.value :: ·)).weaken
        (by have := first.length_rest; simp only [_h, List.length_cons] at this; omega)
    | '\x7d' :: rest =>
      some ⟨[first.value], rest,
        by have := first.length_rest; simp only [_h, List.length_cons] at this; omega⟩
    | _ => none
termination_by cs => cs.length
decreasing_by
  have := first.length_rest
  simp only [_h, List.length_cons] at this
  omega

/-- The fields of an object, of which the last one of each name counts. -/
def lastOfEachName : List (String × Json) → List (String × Json)
  | [] => []
  | (k, v) :: fs =>
    if fs.any fun f => f.1 == k then lastOfEachName fs else (k, v) :: lastOfEachName fs

/-- Reads the items of an array whose opening bracket has been taken. -/
def arrayBody (item : TextReader Json) : TextReader Json := fun cs =>
  match _h : skipBlanks cs with
  | ']' :: rest => some ⟨array [], rest, by
      have := length_dropWhile_le isBlank cs
      simp only [skipBlanks] at _h
      simp only [_h, List.length_cons] at this
      omega⟩
  | _ => (items item cs).map (·.map array)

/-- Reads the fields of an object whose opening brace has been taken. -/
def objectBody (item : TextReader Json) : TextReader Json := fun cs =>
  match _h : skipBlanks cs with
  | '\x7d' :: rest => some ⟨object [], rest, by
      have := length_dropWhile_le isBlank cs
      simp only [skipBlanks] at _h
      simp only [_h, List.length_cons] at this
      omega⟩
  | _ => (fields item cs).map (·.map fun fs => object (lastOfEachName fs))

/-- Reads a value; `inner` reads the values inside arrays and objects. -/
def valueWith (inner : TextReader Json) : TextReader Json
  | 'n' :: 'u' :: 'l' :: 'l' :: r => some ⟨null, r, by simp only [List.length_cons]; omega⟩
  | 't' :: 'r' :: 'u' :: 'e' :: r => some ⟨bool true, r, by simp only [List.length_cons]; omega⟩
  | 'f' :: 'a' :: 'l' :: 's' :: 'e' :: r =>
    some ⟨bool false, r, by simp only [List.length_cons]; omega⟩
  | '\x22' :: r =>
    (stringBody r).map fun s => (s.map string).weaken (by simp only [List.length_cons]; omega)
  | '[' :: r => (arrayBody inner r).map fun v => v.weaken (by simp only [List.length_cons]; omega)
  | '\x7b' :: r =>
    (objectBody inner r).map fun v => v.weaken (by simp only [List.length_cons]; omega)
  | cs => number cs

/-- Reads a value that nests at most so deep. -/
def value : (depth : Nat) → TextReader Json
  | 0 => fun _ => none
  | depth + 1 => valueWith (value depth)

/-- The value of a document. -/
def ofText? (text : String) : Option Json := do
  let r ← spaced (value maxNesting) text.toList
  if r.rest.isEmpty then some r.value else none

end CharacterSheet.Json
