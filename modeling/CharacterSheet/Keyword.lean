import CharacterSheet.Entity.Error
import CharacterSheet.NameMap

/-!
# Keywords

Keywords are counted. Any name may be a keyword, and one that was never added to counts zero.

* `KeywordCounts` — how much each keyword counts, wherever the counts come from;
* `KeywordCounter` — the counts that a character keeps, which only ever rise by `add`;
* `KeywordCounter.count_add`, `KeywordCounter.count_seed` — what adding and seeding do to counts.
-/

namespace CharacterSheet

/-- How much each keyword counts. -/
abbrev KeywordCounts := String → Float

/-- Whether a number may be added to a count: it is finite, and not below zero. -/
def isAmount (amount : Float) : Bool := amount.isFinite && !(amount < 0)

/-- The counts of the keywords that a character has. -/
structure KeywordCounter where
  counts : NameMap Float
  deriving DecidableEq, Repr

namespace KeywordCounter

/-- No keyword has a count. -/
def empty : KeywordCounter := ⟨.empty⟩

/-- How much a keyword counts. -/
def count (c : KeywordCounter) (name : String) : Float := (c.counts.get? name).getD 0

/-- Counts a keyword's first amount, which may be below zero where a statistic is the keyword. -/
def seed (c : KeywordCounter) (name : String) (value : Float) : KeywordCounter :=
  ⟨c.counts.insert name (c.count name + value)⟩

/-- Raises the count of a keyword. -/
def add (c : KeywordCounter) (name : String) (amount : Float) :
    Except EntityError KeywordCounter :=
  if isAmount amount then .ok (c.seed name amount) else .error (.invalidAmount name amount)

@[simp] theorem count_empty (name : String) : empty.count name = 0 := rfl

theorem count_seed (c : KeywordCounter) (name other : String) (value : Float) :
    (c.seed name value).count other = if other = name then c.count name + value
      else c.count other := by
  by_cases h : other = name <;> simp [seed, count, NameMap.get?_insert, h]

theorem count_add {c c' : KeywordCounter} {name : String} {amount : Float}
    (h : c.add name amount = .ok c') (other : String) :
    c'.count other = if other = name then c.count name + amount else c.count other := by
  simp only [add] at h
  split at h
  · cases h
    exact count_seed c name other amount
  · cases h

end KeywordCounter

end CharacterSheet
