import CharacterSheet.Entity
import CharacterSheet.Record.Shape

/-!
# Records of statistics and keyword counts

Each type has `toJson`, its record, and `ofJson?`, the value of a record. A statistic without a
description is recorded with the description null, and keyword counts as an object of numbers.
-/

namespace CharacterSheet

open Record

namespace Rounding

/-- The record of a way of rounding. -/
def toJson (r : Rounding) : Json := .string r.text

/-- The way of rounding of a record, whose letters are small. -/
def ofJson? : Json → Option Rounding := unitOf? all text

end Rounding

namespace Statistic

/-- The record of a statistic. -/
def toJson (s : Statistic) : Json :=
  .object [("name", .string s.name), ("base_value", .real s.baseValue),
    ("rounding", s.rounding.toJson), ("description", orNull .string s.description)]

/-- The statistic of a record. -/
def ofJson? (record : Json) : Option Statistic := do
  let fields ← fields? ["name", "base_value", "rounding", "description"] record
  let name ← required fields "name" Json.toText?
  let baseValue ← required fields "base_value" Json.toFloat?
  let rounding ← defaulted fields "rounding" .nearest Rounding.ofJson?
  let description ← defaulted fields "description" none (nullable Json.toText?)
  return ⟨name, baseValue, rounding, description⟩

end Statistic

namespace ActualStatistic

/-- The record of an actual statistic. -/
def toJson (a : ActualStatistic) : Json :=
  .object [("statistic_name", .string a.name), ("original_value", .real a.baseValue),
    ("actual_value", .real a.actualValue)]

/-- The actual statistic of a record. -/
def ofJson? (record : Json) : Option ActualStatistic := do
  let fields ← fields? ["statistic_name", "original_value", "actual_value"] record
  let name ← required fields "statistic_name" Json.toText?
  let baseValue ← required fields "original_value" Json.toFloat?
  let actualValue ← required fields "actual_value" Json.toFloat?
  return ⟨name, baseValue, actualValue⟩

end ActualStatistic

namespace Snapshot

/-- The record of a snapshot: an array. -/
def toJson (s : Snapshot) : Json := .array (s.statistics.map ActualStatistic.toJson)

/-- The snapshot of a record. -/
def ofJson? (record : Json) : Option Snapshot :=
  (listOf ActualStatistic.ofJson? record).map (⟨·⟩)

end Snapshot

namespace KeywordCounter

/-- The record of keyword counts. -/
def toJson (c : KeywordCounter) : Json := mapToJson .real c.counts

/-- The keyword counts of a record. -/
def ofJson? (record : Json) : Option KeywordCounter := (mapOf Json.toFloat? record).map (⟨·⟩)

end KeywordCounter

end CharacterSheet
