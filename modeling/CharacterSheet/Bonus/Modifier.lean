import CharacterSheet.Keyword

/-!
# How a bonus counts

* `BonusModifier`, `BonusModifier.apply` — what is made of a bonus's own value before it joins a
  total.
-/

namespace CharacterSheet

/-- What is made of a bonus's own value before it joins a total. -/
inductive BonusModifier
  | identity
  | scaled (factor : Float)
  /-- Multiplies by the count of a keyword, as it stands when the total is asked for. -/
  | multipliedBy (keyword : String)
  deriving DecidableEq, Repr, Inhabited

/-- The value that a modifier makes of a bonus's own value. -/
def BonusModifier.apply : BonusModifier → Float → KeywordCounts → Float
  | identity, value, _ => value
  | scaled factor, value, _ => value * factor
  | multipliedBy keyword, value, keywords => value * keywords keyword

end CharacterSheet
