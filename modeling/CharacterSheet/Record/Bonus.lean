import CharacterSheet.Bonus.Catalog
import CharacterSheet.Record.Shape

/-!
# Records of bonuses

Each type has `toJson`, its record, and `ofJson?`, the value of a record. Of the metadata of a bonus
only what is there is written.
-/

namespace CharacterSheet

open Record

namespace BonusModifier

/-- The record of a modifier. -/
def toJson : BonusModifier → Json
  | identity => .string "identity"
  | scaled factor => .object [("scaled", .real factor)]
  | multipliedBy keyword => .object [("multiplied_by", .string keyword)]

/-- The modifier of a record. -/
def ofJson? (record : Json) : Option BonusModifier := do
  let (name, payload) ← variant? record
  match name with
  | "identity" => unitVariant payload identity
  | "scaled" => (payload.bind Json.toFloat?).map scaled
  | "multiplied_by" => (payload.bind Json.toText?).map multipliedBy
  | _ => none

end BonusModifier

namespace BonusMetadata

/-- The record of an entry of the catalog. -/
def toJson (m : BonusMetadata) : Json :=
  .object ((if m.enhances.isEmpty then [] else [("enhances", .ofTexts m.enhances)]) ++
    optional "enhanced_by" .string m.enhancedBy ++
    optional "multiplied_by" .string m.multipliedBy ++ optional "value" .real m.value)

/-- The entry of the catalog of a record. -/
def ofJson? (record : Json) : Option BonusMetadata := do
  let fields ← fields? ["enhances", "enhanced_by", "multiplied_by", "value"] record
  let enhances ← defaulted fields "enhances" [] (listOf Json.toText?)
  let enhancedBy ← defaulted fields "enhanced_by" none (nullable Json.toText?)
  let multipliedBy ← defaulted fields "multiplied_by" none (nullable Json.toText?)
  let value ← defaulted fields "value" none (nullable Json.toFloat?)
  return ⟨enhances, enhancedBy, multipliedBy, value⟩

end BonusMetadata

namespace BonusCatalog

/-- The record of a catalog: an object of its entries. -/
def toJson (c : BonusCatalog) : Json := mapToJson BonusMetadata.toJson c

/-- The catalog of a record. -/
def ofJson? (record : Json) : Option BonusCatalog := mapOf BonusMetadata.ofJson? record

end BonusCatalog

end CharacterSheet
