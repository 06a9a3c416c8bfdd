import CharacterSheet.Bonus.Catalog
import CharacterSheet.Bonus.Error
import CharacterSheet.Config

/-!
# Bonuses that feed each other

A bonus is a named value that may be fed by other bonuses. Those of the catalog are wired as the
catalog says when they are first added; a bonus that is only mentioned stands in with the value zero
until it is added itself.

* `Bonus`, `BonusGraph` — the bonuses of a graph;
* `BonusGraph.add` — adds to a bonus of the catalog;
* `BonusGraph.insert`, `BonusGraph.link` — puts in a bonus and an edge whatever the catalog says.
-/

namespace CharacterSheet

/-- A bonus of a graph. -/
structure Bonus where
  /-- The bonus's own value, before the modifier. -/
  value : Float
  modifier : BonusModifier
  /-- The bonuses that feed this one, each once. -/
  enhancedBy : List String := []
  /-- Whether the edges of the catalog are in place. -/
  isWired : Bool := false
  deriving DecidableEq, Repr

/-- The bonuses that are there, by name. -/
structure BonusGraph where
  catalog : BonusCatalog
  /-- How many bonuses long a chain of enhancements may be. -/
  maxDepth : Nat
  bonuses : NameMap Bonus
  deriving DecidableEq, Repr

/-- A bonus with one more source, unless it has that source already. -/
def Bonus.addSource (b : Bonus) (source : String) : Bonus :=
  if source ∈ b.enhancedBy then b else { b with enhancedBy := b.enhancedBy ++ [source] }

namespace BonusGraph

/-- The graph without bonuses. -/
def empty (catalog : BonusCatalog) (config : EngineConfig := {}) : BonusGraph :=
  ⟨catalog, config.maxBonusDepth, .empty⟩

/-- The bonus of a given name. -/
def bonus? (g : BonusGraph) (name : String) : Option Bonus := g.bonuses.get? name

/-- The names of the bonuses that are there, in order. -/
def names (g : BonusGraph) : List String := g.bonuses.names

/-- The names of the bonuses that feed a bonus. -/
def enhancersOf (g : BonusGraph) (name : String) : List String :=
  match g.bonus? name with
  | some b => b.enhancedBy
  | none => []

/-- The graph with a bonus of a given name, which has the value zero if it is new. -/
def ensure (g : BonusGraph) (name : String) : BonusGraph :=
  if g.bonuses.contains name then g
  else
    let modifier := ((g.catalog.get? name).map BonusMetadata.modifier).getD .identity
    { g with bonuses := g.bonuses.insert name { value := 0, modifier } }

/-- The graph with a bonus changed. -/
def adjust (g : BonusGraph) (name : String) (f : Bonus → Bonus) : BonusGraph :=
  { g with bonuses := g.bonuses.adjust name f }

/-- The graph with one bonus feeding another. -/
def addEdge (g : BonusGraph) (source target : String) : BonusGraph :=
  g.adjust target (·.addSource source)

/-- The graph with the edges that the catalog lists for a bonus. -/
def wire (g : BonusGraph) (name : String) (metadata : BonusMetadata) : BonusGraph :=
  let fed := metadata.enhances.foldl
    (fun g target => (g.ensure target).addEdge name target) g
  let wired := metadata.enhancedBy.toList.foldl
    (fun g source => (g.ensure source).addEdge source name) fed
  wired.adjust name fun b => { b with isWired := true }

/-- Adds to the value of a bonus of the catalog, and wires the bonus if that has not been done.
Where no value is stated, the catalog's value is added, or else zero. -/
def add (g : BonusGraph) (name : String) (value : Option Float := none) :
    Except BonusError BonusGraph :=
  match g.catalog.get? name with
  | none => .error (.unknownName name)
  | some metadata =>
    match metadata.neighbours.find? fun n => !g.catalog.contains n with
    | some missing => .error (.unknownName missing)
    | none =>
      let amount := (value.or metadata.value).getD 0
      if !amount.isFinite then .error (.invalidValue name amount)
      else
        let raised := (g.ensure name).adjust name fun b => { b with value := b.value + amount }
        .ok <| match raised.bonus? name with
          | some b => if b.isWired then raised else raised.wire name metadata
          | none => raised

/-- Puts a bonus into the graph, whatever the catalog says. -/
def insert (g : BonusGraph) (name : String) (value : Float) (modifier : BonusModifier) :
    Except BonusError BonusGraph :=
  if g.bonuses.contains name then .error (.duplicate name)
  else if !value.isFinite then .error (.invalidValue name value)
  else .ok { g with bonuses := g.bonuses.insert name { value, modifier, isWired := true } }

/-- Makes one bonus feed another. -/
def link (g : BonusGraph) (source target : String) : Except BonusError BonusGraph :=
  if !g.bonuses.contains source then .error (.unknownName source)
  else if !g.bonuses.contains target then .error (.unknownName target)
  else .ok (g.addEdge source target)

end BonusGraph

end CharacterSheet
