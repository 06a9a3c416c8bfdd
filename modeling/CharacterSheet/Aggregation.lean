import CharacterSheet.Binary64.Order
import CharacterSheet.Config
import CharacterSheet.Property
import CharacterSheet.Statistic

/-!
# Working out a statistic

The properties that modify a statistic are put together kind by kind. Additive magnitudes are
summed, and so are multiplicative ones; the third kind is stacked from the smallest magnitude up,
each one adding its share of what has been reached. A custom formula sees the results and replaces
the value.

* `diminishingStack` — the stack of a list of magnitudes;
* `Aggregates`, `Aggregates.collect`, `Aggregates.combined` — the results of the kinds, and the
  value that they make together;
* `ActualStatistic.compute` — a statistic worked out from the properties that modify it.
-/

namespace CharacterSheet

/-- The sum of a list of numbers, from the left and starting at zero. -/
def runningSum (l : List Float) : Float := l.foldl (· + ·) 0

/-- The stack of a list of magnitudes: from the smallest one up, each adds its share of what has
been reached. The stack of no magnitudes is zero. -/
def diminishingStack (magnitudes : List Float) : Float :=
  match magnitudes.mergeSort Binary64.totalLE with
  | [] => 0
  | smallest :: rest => rest.foldl (fun reached v => reached + reached * v) smallest

/-- What the properties of a statistic come to, kind by kind. -/
structure Aggregates where
  baseValue : Float
  additions : Float
  multiplicators : Float
  additiveMultiplicatively : Float
  deriving DecidableEq, Repr

namespace Aggregates

/-- The magnitudes of the properties of one kind, in order. -/
def magnitudes (factor : Factor) (properties : List Property) (keywords : KeywordCounts) :
    List Float :=
  (properties.filter fun p => p.factor == factor).map fun p => p.effectiveMagnitude keywords

/-- What a list of properties comes to. Custom properties are left out, and the multiplicative ones
never make less than one. -/
def collect (baseValue : Float) (properties : List Property) (keywords : KeywordCounts) :
    Aggregates where
  baseValue := baseValue
  additions := runningSum (magnitudes .additive properties keywords)
  multiplicators :=
    Binary64.greater 1 (runningSum (magnitudes .multiplicative properties keywords))
  additiveMultiplicatively :=
    diminishingStack (magnitudes .additiveMultiplicatively properties keywords)

/-- The value that the kinds make together. -/
def combined (a : Aggregates) : Float :=
  a.baseValue * a.multiplicators + a.additions + a.additiveMultiplicatively

/-- The value of a reserved input. -/
def input (a : Aggregates) : ReservedInput → Float
  | .baseValue => a.baseValue
  | .additions => a.additions
  | .multiplicators => a.multiplicators
  | .additiveMultiplicatively => a.additiveMultiplicatively

/-- The variables of a custom formula: the reserved inputs, and every other name as a keyword. -/
def bindings (a : Aggregates) (keywords : KeywordCounts) : Bindings := fun name =>
  match ReservedInput.ofName? name with
  | some i => some (a.input i)
  | none => some (keywords name)

end Aggregates

/-- The value that a custom property gives a statistic. -/
def Property.customValue (p : Property) (statistic : String) (inputs : Bindings)
    (limits : ParseLimits) : Except AggregationError Float := do
  let formula ← p.compile limits
  (formula.evaluate inputs).mapError (.formula statistic)

/-- Works out a statistic. Every property given counts, whatever statistic it names; of several
custom ones all have to have a value, and the last one's is taken. -/
def ActualStatistic.compute (statistic : Statistic) (properties : List Property)
    (keywords : KeywordCounts) (limits : ParseLimits) :
    Except AggregationError ActualStatistic := do
  let aggregates := Aggregates.collect statistic.baseValue properties keywords
  let inputs := aggregates.bindings keywords
  let value ← (properties.filter Property.isCustom).foldlM
    (fun _ p => p.customValue statistic.name inputs limits) aggregates.combined
  return ⟨statistic.name, statistic.baseValue, statistic.rounding.apply value⟩

end CharacterSheet
