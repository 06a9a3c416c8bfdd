import CharacterSheet.Entity.Operation

/-!
# Changing a character in place

A change writes to a character step by step, and may be turned down between two steps. What it has
written by then stays written: a change that is to leave no trace when it is turned down has to do
all its checks before it writes.

* `Entity.Change` — what writes to a character, and has an answer or is turned down;
* `Change.register`, `Change.increase`, `Change.addKeyword`, `Change.attach`, `Change.detach` — the
  operations as changes, with their answers;
* `Operation.change`, `Entity.changed` — the change of an operation, and the character after it;
* `Entity.runInPlace` — a character after the changes of a sequence of operations.
-/

namespace CharacterSheet.Entity

/-- What writes to a character, and has an answer or is turned down. A change that is turned down
keeps what it has written. -/
abbrev Change (α : Type) := EStateM EntityError Entity α

namespace Change

/-- Adds a number to the count of a keyword. -/
def count (name : String) (value : Float) : Change Unit :=
  modify fun e => { e with keywords := e.keywords.seed name value }

/-- Raises the count of a keyword. The answer is the new count. -/
def addKeyword (name : String) (amount : Float) : Change Float := do
  unless isAmount amount do throw (.invalidAmount name amount)
  count name amount
  return (← get).keywords.count name

/-- Registers a statistic, and counts its base value under its name. -/
def register (s : Statistic) : Change Unit := do
  if ((← get).base? s.name).isSome then throw (.duplicateStatistic s.name)
  unless s.baseValue.isFinite do throw (.invalidAmount s.name s.baseValue)
  count s.name s.baseValue
  modify fun e => { e with statistics := e.statistics ++ [s] }

/-- Raises the keyword of a statistic, and then its base value. The answer is the new base value. -/
def increase (name : String) (delta : Float) : Change Float := do
  let statistics := (← get).statistics
  match statistics.findFinIdx? fun s => s.name == name with
  | none => throw (.unknownStatistic name)
  | some i =>
    let _ ← addKeyword name delta
    let raised := statistics[i].raise delta
    modify fun e => { e with statistics := e.statistics.set i raised }
    return raised.baseValue

/-- Attaches an enhancer. -/
def attach (enhancer : Enhancer) : Change Unit := do
  if (← get).isAttached enhancer.name then throw (.duplicateEnhancer enhancer.name)
  modify fun e => { e with enhancers := e.enhancers ++ [enhancer] }

/-- Detaches the enhancer of a given name. The answer is the enhancer, if there was one. -/
def detach (name : String) : Change (Option Enhancer) := do
  let enhancers := (← get).enhancers
  match enhancers.findFinIdx? fun h => h.name == name with
  | none => return none
  | some i =>
    modify fun e => { e with enhancers := e.enhancers.eraseIdx i }
    return some enhancers[i]

end Change

/-- The change of an operation. -/
def Operation.change : Operation → Change Unit
  | .register s => Change.register s
  | .increase name delta => discard (Change.increase name delta)
  | .addKeyword name amount => discard (Change.addKeyword name amount)
  | .attach enhancer => Change.attach enhancer
  | .detach name => discard (Change.detach name)

/-- The character that an operation leaves behind, accepted or turned down. -/
def changed (e : Entity) (op : Operation) : Entity :=
  match op.change.run e with
  | .ok _ next => next
  | .error _ next => next

/-- A character after the changes of a sequence of operations. -/
def runInPlace (e : Entity) (ops : List Operation) : Entity := ops.foldl changed e

end CharacterSheet.Entity
