import CharacterSheet.Bonus.Graph
import CharacterSheet.History

/-!
# How a graph of bonuses is built

* `BonusGraph.Operation`, `BonusGraph.perform` — an operation on a graph as data, and what it makes
  of the graph;
* `BonusGraph.run` — a graph after a sequence of operations, some of which may be turned down.
-/

namespace CharacterSheet.BonusGraph

/-- An operation on a graph of bonuses. -/
inductive Operation
  | add (name : String) (value : Option Float)
  | insert (name : String) (value : Float) (modifier : BonusModifier)
  | link (source target : String)
  deriving DecidableEq, Repr

/-- What an operation makes of a graph. -/
def perform (g : BonusGraph) : Operation → Except BonusError BonusGraph
  | .add name value => g.add name value
  | .insert name value modifier => g.insert name value modifier
  | .link source target => g.link source target

/-- A graph after a sequence of operations. -/
def run (g : BonusGraph) (ops : List Operation) : BonusGraph := History.run perform g ops

end CharacterSheet.BonusGraph
