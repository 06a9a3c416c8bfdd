import CharacterSheet.Json
import CharacterSheet.NameMap

/-!
# The shapes of records

A record of a content file is a JSON object with a field for each part of a value. The values of
the fields may also stand in an array, in the order in which the parts are declared, and the last
ones may be left out there. Fields that a record does not have are ignored.

A choice between variants is the name of the variant, or an object whose only field has that name
and holds the parts of the variant.

* `fields?` — the fields of a record;
* `required`, `defaulted`, `nullable` — the ways in which a part may be there;
* `variant?`, `unitVariant`, `variantFields` — the name of a variant and its parts;
* `listOf`, `mapOf` — the items of an array, and the fields of an object as a map;
* `tagged`, `optional`, `mapToJson` — the same ways, written.
-/

namespace CharacterSheet.Record

variable {α : Type}

/-- The fields of a record, in any order. -/
abbrev Fields := List (String × Json)

/-- The fields of a record whose parts have the given names, in the order of their declaration. -/
def fields? (names : List String) : Json → Option Fields
  | .object fields => some fields
  | .array items => if items.length ≤ names.length then some (names.zip items) else none
  | _ => none

/-- A part that has to be there. -/
def required (fields : Fields) (name : String) (read : Json → Option α) : Option α :=
  (fields.lookup name).bind read

/-- A part that may be left out. -/
def defaulted (fields : Fields) (name : String) (default : α) (read : Json → Option α) : Option α :=
  match fields.lookup name with
  | some v => read v
  | none => some default

/-- A part that may be null. -/
def nullable (read : Json → Option α) : Json → Option (Option α)
  | .null => some none
  | v => (read v).map some

/-- The name of a variant, and what stands under it. -/
def variant? : Json → Option (String × Option Json)
  | .string name => some (name, none)
  | .object [(name, payload)] => some (name, some payload)
  | _ => none

/-- A variant without parts: nothing or null stands under its name. -/
def unitVariant (payload : Option Json) (value : α) : Option α :=
  match payload with
  | none | some .null => some value
  | _ => none

/-- The parts of a variant. -/
def variantFields : Option Json → Option Fields
  | some (.object fields) => some fields
  | _ => none

/-- The variant without parts whose name a record gives. -/
def unitOf? (all : List α) (name : α → String) (record : Json) : Option α := do
  let (given, payload) ← variant? record
  let value ← all.find? fun v => name v == given
  unitVariant payload value

/-- The items of an array, all of which have to be readable. -/
def listOf (read : Json → Option α) (record : Json) : Option (List α) :=
  record.toList?.bind fun items => items.mapM read

/-- A map from names: an object with a field for each name. -/
def mapOf (read : Json → Option α) : Json → Option (NameMap α)
  | .object fields =>
    (fields.mapM fun f => (read f.2).map fun v => (f.1, v)).map NameMap.ofList
  | _ => none

/-- A map from names, written. -/
def mapToJson (write : α → Json) (m : NameMap α) : Json :=
  .object (m.entries.map fun e => (e.1, write e.2))

/-- A variant with parts, written. -/
def tagged (name : String) (fields : Fields) : Json := .object [(name, .object fields)]

/-- A part that is left out when it is absent, written. -/
def optional (name : String) (write : α → Json) : Option α → Fields
  | some v => [(name, write v)]
  | none => []

/-- A part that is null when it is absent, written. -/
def orNull (write : α → Json) : Option α → Json
  | some v => write v
  | none => .null

end CharacterSheet.Record
