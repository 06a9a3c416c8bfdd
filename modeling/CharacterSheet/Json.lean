import CharacterSheet.Binary64.Basic

/-!
# JSON values

Content files are JSON documents. Numbers are kept apart by how they are written: an integer is a
number without point and exponent that fits into 64 bits, and every other number is a double.

* `Json` — a JSON value, the fields of an object in the order of the document;
* `Json.toFloat?`, `Json.toNat?`, `Json.toText?`, `Json.toChar?`, `Json.toList?` — values read as
  numbers, counts, texts, characters and lists.
-/

namespace CharacterSheet

/-- A JSON value. -/
inductive Json
  | null
  | bool (value : Bool)
  | integer (value : Int)
  | real (value : Float)
  | string (value : String)
  | array (items : List Json)
  | object (fields : List (String × Json))
  deriving Repr

namespace Json

/-- A number as the nearest double. -/
def toFloat? : Json → Option Float
  | integer n => some (Binary64.ofInt n)
  | real x => some x
  | _ => none

/-- A count: an integer that is not below zero. -/
def toNat? : Json → Option Nat
  | integer (.ofNat n) => some n
  | _ => none

/-- A text. -/
def toText? : Json → Option String
  | string s => some s
  | _ => none

/-- A text of one character. -/
def toChar? : Json → Option Char
  | string s =>
    match s.toList with
    | [c] => some c
    | _ => none
  | _ => none

/-- The items of an array. -/
def toList? : Json → Option (List Json)
  | array items => some items
  | _ => none

/-- A count as a JSON value. -/
def ofNat (n : Nat) : Json := integer n

/-- A list of texts as a JSON value. -/
def ofTexts (texts : List String) : Json := array (texts.map string)

end Json

end CharacterSheet
