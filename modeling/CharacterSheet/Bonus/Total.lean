import CharacterSheet.Bonus.Graph

/-!
# The total of a bonus

The total of a bonus is its own modified value plus, in order, the totals of the bonuses that feed
it. A total is worked out once in a query however often it is needed. A bonus that would need its
own total, and one at the end of too long a chain, make the query fail; the length that is left for
a chain is what the recursion descends on.

* `BonusGraph.sumTotals` — a sum of totals, with the totals known so far;
* `BonusGraph.walk` — the total of a bonus at the end of a path;
* `BonusGraph.total` — the total of a bonus.
-/

namespace CharacterSheet.BonusGraph

/-- A total, and the totals that are known once it has been worked out. -/
abbrev Totalled := Except BonusError (Float × NameMap Float)

/-- The sum of a number and the totals of some bonuses, from left to right, where `total` works out
one total. -/
def sumTotals (total : NameMap Float → String → Totalled) (known : NameMap Float) (sum : Float) :
    List String → Totalled
  | [] => .ok (sum, known)
  | source :: rest => do
    let (t, known) ← total known source
    sumTotals total known (sum + t) rest

/-- The part of a path, from `name` to the last bonus, that closes into a cycle. On the path the
last bonus comes first. -/
def cycle (path : List String) (name : String) : List String :=
  name :: (path.takeWhile (· ≠ name)).reverse ++ [name]

/-- The total of a bonus that was reached on a path, when the chain may be `left` bonuses longer. A
bonus that is not there has the total zero. -/
def walk (g : BonusGraph) (keywords : KeywordCounts) (left : Nat) (path : List String)
    (known : NameMap Float) (name : String) : Totalled :=
  match g.bonus? name with
  | none => .ok (0, known)
  | some b =>
    match known.get? name with
    | some total => .ok (total, known)
    | none =>
      if name ∈ path then .error (.cycleDetected (cycle path name))
      else match left with
        | 0 => .error (.depthExceeded name g.maxDepth)
        | left + 1 => do
          let own := b.modifier.apply b.value keywords
          let (total, known) ←
            sumTotals (g.walk keywords left (name :: path)) known own b.enhancedBy
          return (total, known.insert name total)

/-- The total of a bonus. -/
def total (g : BonusGraph) (keywords : KeywordCounts) (name : String) : Except BonusError Float :=
  (g.walk keywords g.maxDepth [] .empty name).map (·.1)

end CharacterSheet.BonusGraph
