import CharacterSheet.Binary64.Integral

/-!
# Statistics

A statistic is a named number of a character. Its base value is what the character owns; the actual
value is worked out from it by the modifiers in force, and never stored.

* `Rounding`, `Rounding.apply` — how an actual value is presented;
* `Statistic` — a statistic with its base value;
* `ActualStatistic` — the answer to the question how high a statistic actually is.
-/

namespace CharacterSheet

/-- How an actual value is presented. -/
inductive Rounding
  /-- As the nearest whole number, a half going to the even one. -/
  | nearest
  /-- As it is. -/
  | exact
  deriving DecidableEq, Repr, Inhabited

namespace Rounding

/-- All ways of rounding. -/
def all : List Rounding := [nearest, exact]

/-- The name of a way of rounding. -/
def text : Rounding → String
  | nearest => "nearest"
  | exact => "exact"

/-- The way of rounding with a given name, in letters of either case. -/
def ofText? (name : String) : Option Rounding := all.find? fun r => r.text == name.toLower

/-- A value as it is presented. -/
def apply : Rounding → Float → Float
  | nearest, x => Binary64.roundHalfEven x
  | exact, x => x

end Rounding

/-- A named number of a character. -/
structure Statistic where
  name : String
  baseValue : Float
  rounding : Rounding := .nearest
  description : Option String := none
  deriving DecidableEq, Repr

/-- The statistic with its base value raised. -/
def Statistic.raise (s : Statistic) (delta : Float) : Statistic :=
  { s with baseValue := s.baseValue + delta }

/-- What a statistic amounts to: its base value, and the value that the modifiers in force make of
it. -/
structure ActualStatistic where
  name : String
  baseValue : Float
  actualValue : Float
  deriving DecidableEq, Repr

end CharacterSheet
