import CharacterSheet.Bonus.Operation
import CharacterSheet.Bonus.Total

/-!
# Bonuses in a table

A graph of bonuses kept as a table: each bonus has a number, the place of its row, and is fed by
numbers. An index finds the number of a name. A number is looked up without knowing that there is
such a row, and a change writes to the table row by row, so that what it has written stays written
when it stops.

* `BonusRow`, `BonusTable` — the rows, and the table with its index;
* `BonusTable.Fault` — why something stops: it is turned down, or there is no row of a number;
* `Change.add`, `Change.insert`, `Change.link` — the operations as changes of the table, with their
  answers;
* `BonusTable.changed`, `BonusTable.run` — a table after the changes of operations;
* `BonusTable.rowOf`, `BonusTable.enhancersOf`, `BonusTable.total` — the row of a name, what feeds a
  bonus, and its total.
-/

namespace CharacterSheet

/-- A bonus in a table. -/
structure BonusRow where
  name : String
  /-- The bonus's own value, before the modifier. -/
  value : Float
  modifier : BonusModifier
  /-- The numbers of the bonuses that feed this one. -/
  enhancedBy : List Nat := []
  /-- Whether the edges of the catalog are in place. -/
  isWired : Bool := false
  deriving DecidableEq, Repr

/-- A row with one more source, unless it has that source already. -/
def BonusRow.addSource (r : BonusRow) (source : Nat) : BonusRow :=
  if source ∈ r.enhancedBy then r else { r with enhancedBy := r.enhancedBy ++ [source] }

/-- The bonuses that are there, by number, with the numbers of their names. -/
structure BonusTable where
  catalog : BonusCatalog
  /-- How many bonuses long a chain of enhancements may be. -/
  maxDepth : Nat
  rows : List BonusRow
  index : NameMap Nat
  deriving DecidableEq, Repr

namespace BonusTable

/-- The table without bonuses. -/
def empty (catalog : BonusCatalog) (config : EngineConfig := {}) : BonusTable :=
  ⟨catalog, config.maxBonusDepth, [], .empty⟩

/-- Why a change or a query stops. -/
inductive Fault
  | refused (error : BonusError)
  /-- There is no row of a number that was looked up. -/
  | outOfBounds (id : Nat)
  deriving DecidableEq, Repr

/-- What writes to a table, and has an answer or stops. A change that stops keeps what it has
written. -/
abbrev Change (α : Type) := EStateM Fault BonusTable α

/-! ### Changes -/

namespace Change

/-- The row of a number. -/
def row (id : Nat) : Change BonusRow := do
  match (← get).rows[id]? with
  | some r => return r
  | none => throw (.outOfBounds id)

/-- Changes the row of a number. -/
def modifyRow (id : Nat) (f : BonusRow → BonusRow) : Change Unit := do
  let r ← row id
  modify fun t => { t with rows := t.rows.set id (f r) }

/-- Writes a new row. The answer is its number. -/
def push (name : String) (value : Float) (modifier : BonusModifier) : Change Nat := do
  let id := (← get).rows.length
  modify fun t =>
    { t with index := t.index.insert name id, rows := t.rows ++ [{ name, value, modifier }] }
  return id

/-- Writes a row with the value zero for a name that has none. The answer is the number of the
name. -/
def ensure (name : String) : Change Nat := do
  let t ← get
  match t.index.get? name with
  | some id => return id
  | none => push name 0 (((t.catalog.get? name).map BonusMetadata.modifier).getD .identity)

/-- Makes one bonus feed another. -/
def addEdge (source target : Nat) : Change Unit := modifyRow target (·.addSource source)

/-- Puts in the edges that the catalog lists for a bonus. -/
def wire (id : Nat) (name : String) : Change Unit := do
  match (← get).catalog.get? name with
  | none => return
  | some metadata =>
    metadata.enhances.forM fun target => do addEdge id (← ensure target)
    metadata.enhancedBy.toList.forM fun source => do addEdge (← ensure source) id
    modifyRow id fun r => { r with isWired := true }

/-- Adds to the value of a bonus, which is put in if it is new, and wires the bonus if that has not
been done. The answer is the new value. -/
def raise (name : String) (amount : Float) : Change Float := do
  let id ← ensure name
  modifyRow id fun r => { r with value := r.value + amount }
  unless (← row id).isWired do wire id name
  return (← row id).value

/-- Adds to the value of a bonus of the catalog. Where no value is stated, the catalog's value is
added, or else zero. -/
def add (name : String) (value : Option Float) : Change Float := do
  let catalog := (← get).catalog
  match catalog.get? name with
  | none => throw (.refused (.unknownName name))
  | some metadata =>
    match metadata.neighbours.find? fun n => !catalog.contains n with
    | some missing => throw (.refused (.unknownName missing))
    | none =>
      let amount := (value.or metadata.value).getD 0
      unless amount.isFinite do throw (.refused (.invalidValue name amount))
      raise name amount

/-- Puts in a bonus, whatever the catalog says. The answer is its number. -/
def insert (name : String) (value : Float) (modifier : BonusModifier) : Change Nat := do
  if (← get).index.contains name then throw (.refused (.duplicate name))
  unless value.isFinite do throw (.refused (.invalidValue name value))
  let id ← push name value modifier
  modifyRow id fun r => { r with isWired := true }
  return id

/-- The number of a name. -/
def number (name : String) : Change Nat := do
  match (← get).index.get? name with
  | some id => return id
  | none => throw (.refused (.unknownName name))

/-- Makes one bonus feed another, by name. -/
def link (source target : String) : Change Unit := do
  let sourceId ← number source
  let targetId ← number target
  addEdge sourceId targetId

/-- The change of an operation. -/
def ofOperation : BonusGraph.Operation → Change Unit
  | .add name value => discard (add name value)
  | .insert name value modifier => discard (insert name value modifier)
  | .link source target => link source target

end Change

/-- The table that an operation leaves behind, accepted or turned down. -/
def changed (t : BonusTable) (op : BonusGraph.Operation) : BonusTable :=
  match (Change.ofOperation op).run t with
  | .ok _ next => next
  | .error _ next => next

/-- A table after the changes of a sequence of operations. -/
def run (t : BonusTable) (ops : List BonusGraph.Operation) : BonusTable := ops.foldl changed t

/-! ### Queries -/

/-- The row of a number. -/
def row (t : BonusTable) (id : Nat) : Except Fault BonusRow :=
  match t.rows[id]? with
  | some r => .ok r
  | none => .error (.outOfBounds id)

/-- The row of a name, if there is one. -/
def rowOf (t : BonusTable) (name : String) : Except Fault (Option BonusRow) :=
  match t.index.get? name with
  | some id => return some (← t.row id)
  | none => return none

/-- The names of the bonuses that feed a bonus. -/
def enhancersOf (t : BonusTable) (name : String) : Except Fault (List String) := do
  match ← t.rowOf name with
  | some r => r.enhancedBy.mapM fun source => return (← t.row source).name
  | none => return []

/-- A total, and the totals that are known once it has been worked out, by number. -/
abbrev Totalled := Except Fault (Float × List (Nat × Float))

/-- The sum of a number and the totals of some bonuses, from left to right, where `total` works out
one total. -/
def sumTotals (total : List (Nat × Float) → Nat → Totalled) (known : List (Nat × Float))
    (sum : Float) : List Nat → Totalled
  | [] => .ok (sum, known)
  | source :: rest => do
    let (x, known) ← total known source
    sumTotals total known (sum + x) rest

/-- The total of a bonus that was reached on a path, when the chain may be `left` bonuses longer. On
the path the last bonus comes first. -/
def walk (t : BonusTable) (keywords : KeywordCounts) (left : Nat) (path : List Nat)
    (known : List (Nat × Float)) (id : Nat) : Totalled :=
  match known.lookup id with
  | some total => .ok (total, known)
  | none =>
    if id ∈ path then do
      let names ← (id :: (path.takeWhile (· ≠ id)).reverse ++ [id]).mapM fun step =>
        return (← t.row step).name
      throw (.refused (.cycleDetected names))
    else do
      let r ← t.row id
      match left with
      | 0 => throw (.refused (.depthExceeded r.name t.maxDepth))
      | left + 1 =>
        let own := r.modifier.apply r.value keywords
        let (total, known) ← sumTotals (t.walk keywords left (id :: path)) known own r.enhancedBy
        return (total, (id, total) :: known)

/-- The total of a bonus. A bonus that is not there has the total zero. -/
def total (t : BonusTable) (keywords : KeywordCounts) (name : String) : Except Fault Float :=
  match t.index.get? name with
  | some id => (t.walk keywords t.maxDepth [] [] id).map (·.1)
  | none => .ok 0

end BonusTable

end CharacterSheet
