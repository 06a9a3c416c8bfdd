import CharacterSheet.Enhancer
import CharacterSheet.Record.Shape

/-!
# Records of enhancers

Each type has `toJson`, its record, and `ofJson?`, the value of a record. Parts that are absent are
not written, and the keyword that a property depends on may be given under either of two names.
-/

namespace CharacterSheet

open Record

namespace Factor

/-- The record of a factor. -/
def toJson (f : Factor) : Json := .string f.text

/-- The factor of a record. -/
def ofJson? : Json → Option Factor := unitOf? all text

end Factor

namespace Property

/-- The record of a property. -/
def toJson (p : Property) : Json :=
  .object ([("statistic", .string p.statistic), ("value", .real p.value),
    ("factor", p.factor.toJson)] ++ optional "depends_on" .string p.dependsOn ++
    optional "formula" .string p.formula)

/-- The keyword that a property depends on. It stands under one name or the other, but not under
both. -/
def dependsOnField (fields : Fields) : Option (Option String) :=
  match fields.lookup "depends_on", fields.lookup "depends_on_keyword" with
  | some _, some _ => none
  | some v, none | none, some v => nullable Json.toText? v
  | none, none => some none

/-- The property of a record. -/
def ofJson? (record : Json) : Option Property := do
  let fields ← fields? ["statistic", "value", "factor", "depends_on", "formula"] record
  let statistic ← required fields "statistic" Json.toText?
  let value ← defaulted fields "value" 0 Json.toFloat?
  let factor ← required fields "factor" Factor.ofJson?
  let dependsOn ← dependsOnField fields
  let formula ← defaulted fields "formula" none (nullable Json.toText?)
  return { statistic, value, factor, dependsOn, formula }

end Property

namespace Enhancer

/-- The record of an enhancer, with its properties group by group. -/
def toJson (e : Enhancer) : Json :=
  .object ([("name", .string e.name)] ++ optional "description" .string e.description ++
    [("properties", .array (e.properties.map Property.toJson))])

/-- The enhancer of a record. -/
def ofJson? (record : Json) : Option Enhancer := do
  let fields ← fields? ["name", "description", "properties"] record
  let name ← required fields "name" Json.toText?
  let description ← defaulted fields "description" none (nullable Json.toText?)
  let properties ← defaulted fields "properties" [] (listOf Property.ofJson?)
  return ofProperties name properties description

end Enhancer

end CharacterSheet
