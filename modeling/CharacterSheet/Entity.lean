import CharacterSheet.Aggregation
import CharacterSheet.Enhancer

/-!
# Characters

A character has statistics, keyword counts and attached enhancers. Nothing that can be worked out is
stored. A statistic is a keyword too: its base value is counted under its name when it is
registered, and whenever it is raised.

* `Entity` — the state of a character;
* `Entity.register`, `Entity.increase`, `Entity.addKeyword`, `Entity.attach`, `Entity.detach` — the
  operations, which leave no trace when they fail;
* `Entity.statistic`, `Entity.snapshot` — one actual statistic, and all of them;
* `Snapshot` — the actual statistics of a character.
-/

namespace CharacterSheet

/-- The state of a character. -/
structure Entity where
  config : EngineConfig := {}
  /-- The statistics, in the order of their registration. -/
  statistics : List Statistic := []
  keywords : KeywordCounter := .empty
  /-- The enhancers, in the order of their attachment. -/
  enhancers : List Enhancer := []
  deriving DecidableEq, Repr

/-- The actual statistics of a character, in the order of registration. -/
structure Snapshot where
  statistics : List ActualStatistic
  deriving DecidableEq, Repr

namespace Snapshot

/-- The actual statistic of a given name. -/
def get? (s : Snapshot) (name : String) : Option ActualStatistic :=
  s.statistics.find? fun a => a.name == name

/-- The actual value of the statistic of a given name. -/
def value? (s : Snapshot) (name : String) : Option Float := (s.get? name).map (·.actualValue)

/-- How many statistics a snapshot has. -/
def size (s : Snapshot) : Nat := s.statistics.length

end Snapshot

namespace Entity

/-- The registered statistic of a given name. -/
def base? (e : Entity) (name : String) : Option Statistic :=
  e.statistics.find? fun s => s.name == name

/-- Whether an enhancer of a given name is attached. -/
def isAttached (e : Entity) (name : String) : Bool := e.enhancers.any fun h => h.name == name

/-- Registers a statistic, whose base value becomes part of the keyword of its name. -/
def register (e : Entity) (s : Statistic) : Except EntityError Entity :=
  if (e.base? s.name).isSome then .error (.duplicateStatistic s.name)
  else if !s.baseValue.isFinite then .error (.invalidAmount s.name s.baseValue)
  else .ok { e with
    statistics := e.statistics ++ [s]
    keywords := e.keywords.seed s.name s.baseValue }

/-- Raises the base value of a statistic, and the keyword of its name with it. -/
def increase (e : Entity) (name : String) (delta : Float) : Except EntityError Entity :=
  match e.base? name with
  | none => .error (.unknownStatistic name)
  | some _ => do
    let keywords ← e.keywords.add name delta
    return { e with
      statistics := e.statistics.map fun s => if s.name == name then s.raise delta else s
      keywords := keywords }

/-- Raises the count of a keyword. -/
def addKeyword (e : Entity) (name : String) (amount : Float) : Except EntityError Entity := do
  let keywords ← e.keywords.add name amount
  return { e with keywords := keywords }

/-- Attaches an enhancer. -/
def attach (e : Entity) (enhancer : Enhancer) : Except EntityError Entity :=
  if e.isAttached enhancer.name then .error (.duplicateEnhancer enhancer.name)
  else .ok { e with enhancers := e.enhancers ++ [enhancer] }

/-- The attached enhancer of a given name. -/
def enhancer? (e : Entity) (name : String) : Option Enhancer :=
  e.enhancers.find? fun h => h.name == name

/-- Detaches the enhancer of a given name, if there is one. -/
def detach (e : Entity) (name : String) : Entity :=
  { e with enhancers := e.enhancers.eraseP fun h => h.name == name }

/-- The properties that modify a statistic, in the order of attachment and declaration. -/
def propertiesFor (e : Entity) (statistic : String) : List Property :=
  e.enhancers.flatMap fun h => h.propertiesFor statistic

/-- Works out a statistic of a character. -/
def compute (e : Entity) (s : Statistic) : Except EntityError ActualStatistic :=
  (ActualStatistic.compute s (e.propertiesFor s.name) e.keywords.count
    e.config.formulaLimits).mapError .aggregation

/-- The actual statistic of a given name. -/
def statistic (e : Entity) (name : String) : Except EntityError ActualStatistic :=
  match e.base? name with
  | none => .error (.unknownStatistic name)
  | some s => e.compute s

/-- All actual statistics, or the error of the first one that fails. -/
def snapshot (e : Entity) : Except EntityError Snapshot := do
  let statistics ← e.statistics.mapM e.compute
  return ⟨statistics⟩

end Entity

end CharacterSheet
