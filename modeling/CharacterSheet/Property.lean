import CharacterSheet.Formula
import CharacterSheet.Keyword

/-!
# Modifiers of statistics

A property modifies one statistic. How, is said by its factor: three kinds of properties have a
magnitude, which may grow with a keyword, and custom ones have a formula.

* `Factor` — the kinds of properties;
* `Property`, `Property.effectiveMagnitude`, `Property.compile` — a property, its magnitude at the
  present keyword counts, and its formula.
-/

namespace CharacterSheet

/-- How the properties of one statistic are put together. -/
inductive Factor
  /-- Magnitudes are summed and added. -/
  | additive
  /-- Magnitudes are summed and multiplied by, and never by less than one. -/
  | multiplicative
  /-- Magnitudes are stacked with diminishing weight and added. -/
  | additiveMultiplicatively
  /-- A formula over the results of the other kinds replaces the value. -/
  | custom
  deriving DecidableEq, Repr

namespace Factor

/-- All factors. -/
def all : List Factor := [additive, multiplicative, additiveMultiplicatively, custom]

/-- The name of a factor. -/
def text : Factor → String
  | additive => "additive"
  | multiplicative => "multiplicative"
  | additiveMultiplicatively => "additive-multiplicatively"
  | custom => "custom"

/-- The factor of a given name. -/
def ofText? (name : String) : Option Factor := all.find? fun f => f.text == name

end Factor

/-- A modifier of one statistic. -/
structure Property where
  /-- The statistic that is modified. -/
  statistic : String
  /-- The magnitude, before any keyword is taken into account. -/
  value : Float := 0
  factor : Factor
  /-- The keyword whose count multiplies the magnitude. -/
  dependsOn : Option String := none
  /-- The formula of a custom property. -/
  formula : Option String := none
  deriving DecidableEq, Repr

namespace Property

/-- Whether a property has a formula in place of a magnitude. -/
def isCustom (p : Property) : Bool := p.factor == .custom

/-- A custom property with its formula. -/
def custom (statistic formula : String) (dependsOn : Option String := none) : Property :=
  { statistic, factor := .custom, dependsOn, formula := some formula }

/-- The magnitude of a property: its value, times the count of the keyword it depends on. -/
def effectiveMagnitude (p : Property) (keywords : KeywordCounts) : Float :=
  match p.dependsOn with
  | some keyword => p.value * keywords keyword
  | none => p.value

/-- The formula of a property, read under limits. -/
def compile (p : Property) (limits : ParseLimits) : Except AggregationError Formula :=
  match p.formula with
  | none => .error (.missingFormula p.statistic)
  | some source => (Formula.parse source limits).mapError (.formula p.statistic)

end Property

end CharacterSheet
