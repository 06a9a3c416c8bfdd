import CharacterSheet.Entity
import CharacterSheet.History

/-!
# What happens to a character over time

* `Entity.Operation`, `Entity.perform` — an operation on a character as data, and what it makes of
  the character;
* `Entity.run` — a character after a sequence of operations, some of which may be turned down.
-/

namespace CharacterSheet.Entity

/-- An operation on a character. -/
inductive Operation
  | register (statistic : Statistic)
  | increase (name : String) (delta : Float)
  | addKeyword (name : String) (amount : Float)
  | attach (enhancer : Enhancer)
  | detach (name : String)
  deriving DecidableEq, Repr

/-- What an operation makes of a character. -/
def perform (e : Entity) : Operation → Except EntityError Entity
  | .register statistic => e.register statistic
  | .increase name delta => e.increase name delta
  | .addKeyword name amount => e.addKeyword name amount
  | .attach enhancer => e.attach enhancer
  | .detach name => .ok (e.detach name)

/-- A character after a sequence of operations. -/
def run (e : Entity) (ops : List Operation) : Entity := History.run perform e ops

end CharacterSheet.Entity
