import CharacterSheet.Binary64.Basic

/-!
# Orders on doubles

Comparison of doubles leaves NaN outside and takes the two zeros for one number. Where a list has
to come out in one order whatever it holds, a finer order is needed.

* `orderKey`, `totalLE` — the order of the doubles as bit patterns with a sign: negative zero
  comes before zero, and NaN after the infinities;
* `lesser`, `greater` — the smaller and the larger of two numbers, which pass over NaN;
* `copySign` — a magnitude with another number's sign.
-/

namespace CharacterSheet.Binary64

/-- The place of a double in the total order. -/
def orderKey (x : Float) : Int :=
  let bits : Int := x.toBits.toNat
  if isNegative x then Int64.maxValue.toInt - bits else bits

/-- The total order of doubles. -/
def totalLE (x y : Float) : Bool := decide (orderKey x ≤ orderKey y)

/-- The smaller of two numbers, and the first of two equal ones. A NaN gives way to a number. -/
def lesser (x y : Float) : Float := if y < x || x.isNaN then y else x

/-- The larger of two numbers, and the first of two equal ones. A NaN gives way to a number. -/
def greater (x y : Float) : Float := if x < y || x.isNaN then y else x

/-- The magnitude of `x` under the sign of `y`. -/
def copySign (x y : Float) : Float :=
  if isNegative x == isNegative y then x else -x

theorem totalLE_trans {x y z : Float} (hxy : totalLE x y) (hyz : totalLE y z) : totalLE x z := by
  simp only [totalLE, decide_eq_true_eq] at *
  exact Int.le_trans hxy hyz

theorem totalLE_total (x y : Float) : totalLE x y || totalLE y x := by
  simp only [totalLE, Bool.or_eq_true, decide_eq_true_eq]
  exact Int.le_total _ _

end CharacterSheet.Binary64
