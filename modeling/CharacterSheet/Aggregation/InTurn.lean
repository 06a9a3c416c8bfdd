import CharacterSheet.Aggregation

/-!
# Properties in turn

The properties of a statistic come in whatever order they were declared and attached, with their
kinds mixed. Met one after the other, each adds to the result of its own kind. The custom ones have
no magnitude, and are passed over until the other results are there.

* `Tally`, `Tally.meet` — what the properties met so far come to, and what one more makes of it;
* `Aggregates.collectInTurn` — what a list of properties comes to;
* `ActualStatistic.computeInTurn` — a statistic worked out, its value replaced by every custom
  property in turn.
-/

namespace CharacterSheet

/-- What the properties met so far come to. -/
structure Tally where
  additions : Float := 0
  multipliers : Float := 0
  /-- The magnitudes that are to be stacked, as they were met. -/
  stacked : List Float := []
  deriving DecidableEq, Repr

/-- What has been met with one property more. -/
def Tally.meet (keywords : KeywordCounts) (t : Tally) (p : Property) : Tally :=
  let magnitude := p.effectiveMagnitude keywords
  match p.factor with
  | .additive => { t with additions := t.additions + magnitude }
  | .multiplicative => { t with multipliers := t.multipliers + magnitude }
  | .additiveMultiplicatively => { t with stacked := t.stacked ++ [magnitude] }
  | .custom => t

/-- What a list of properties comes to. -/
def Aggregates.collectInTurn (baseValue : Float) (properties : List Property)
    (keywords : KeywordCounts) : Aggregates :=
  let met := properties.foldl (Tally.meet keywords) {}
  { baseValue
    additions := met.additions
    multiplicators := Binary64.greater 1 met.multipliers
    additiveMultiplicatively := diminishingStack met.stacked }

/-- Works out a statistic. The first custom property that has no value ends the work. -/
def ActualStatistic.computeInTurn (statistic : Statistic) (properties : List Property)
    (keywords : KeywordCounts) (limits : ParseLimits) :
    Except AggregationError ActualStatistic := do
  let aggregates := Aggregates.collectInTurn statistic.baseValue properties keywords
  let inputs := aggregates.bindings keywords
  let mut value := aggregates.combined
  for p in properties do
    if p.isCustom then
      value ← p.customValue statistic.name inputs limits
  return ⟨statistic.name, statistic.baseValue, statistic.rounding.apply value⟩

end CharacterSheet
