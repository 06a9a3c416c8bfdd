import CharacterSheet.Decimal.Shortest
import CharacterSheet.Json

/-!
# Writing JSON

* `Json.text` — a value on one line, without blanks. Numbers that are not integers are written with
  the fewest digits that read back.
-/

namespace CharacterSheet.Json

/-- A character inside a JSON string. -/
def escapedChar (c : Char) : List Char :=
  if c = '\x22' then ['\\', '\x22']
  else if c = '\\' then ['\\', '\\']
  else if c.toNat < 0x20 then
    let digits := Nat.toDigits 16 c.toNat
    '\\' :: 'u' :: (List.replicate (4 - digits.length) '0' ++ digits)
  else [c]

/-- A JSON string. -/
def stringText (s : String) : String :=
  String.ofList ('\x22' :: (s.toList.flatMap escapedChar ++ ['\x22']))

mutual

/-- A JSON value on one line. -/
def text : Json → String
  | null => "null"
  | bool true => "true"
  | bool false => "false"
  | integer n => toString n
  | real x => Decimal.text x
  | string s => stringText s
  | array items => "[" ++ itemsText items ++ "]"
  | object fields => "\x7b" ++ fieldsText fields ++ "\x7d"

/-- The items of an array, between commas. -/
def itemsText : List Json → String
  | [] => ""
  | [v] => text v
  | v :: vs => text v ++ "," ++ itemsText vs

/-- The fields of an object, between commas. -/
def fieldsText : List (String × Json) → String
  | [] => ""
  | [(k, v)] => stringText k ++ ":" ++ text v
  | (k, v) :: fs => stringText k ++ ":" ++ text v ++ "," ++ fieldsText fs

end

end CharacterSheet.Json
