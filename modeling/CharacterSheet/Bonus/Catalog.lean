import CharacterSheet.Bonus.Modifier

/-!
# The catalog of bonuses

Unlike keywords, the names of bonuses are a closed vocabulary. The catalog lists them, and says for
each name how its bonus is wired to others and scaled.

* `BonusMetadata`, `BonusMetadata.neighbours` — what the catalog says of one name, and the names
  that this mentions;
* `BonusMetadata.modifier` — how the bonus counts;
* `BonusCatalog` — the catalog.
-/

namespace CharacterSheet

/-- What the catalog says of a bonus. -/
structure BonusMetadata where
  /-- The bonuses that this one feeds. -/
  enhances : List String := []
  /-- A bonus that feeds this one. -/
  enhancedBy : Option String := none
  /-- The keyword whose count multiplies the bonus's own value. -/
  multipliedBy : Option String := none
  /-- The value of the bonus where none is stated. -/
  value : Option Float := none
  deriving DecidableEq, Repr, Inhabited

namespace BonusMetadata

/-- The names that an entry mentions, those that it feeds first. -/
def neighbours (m : BonusMetadata) : List String := m.enhances ++ m.enhancedBy.toList

/-- How the bonus of an entry counts. -/
def modifier (m : BonusMetadata) : BonusModifier :=
  match m.multipliedBy with
  | some keyword => .multipliedBy keyword
  | none => .identity

end BonusMetadata

/-- The names of bonuses, with what is said of them. -/
abbrev BonusCatalog := NameMap BonusMetadata

end CharacterSheet
