import CharacterSheet.Decimal.Basic

/-!
# The shortest text of a double

A double is written with the fewest significant digits that read back as the same double. The
search walks down the powers of ten: on each grid of multiples of a power only the two neighbours
of the number can read back, and the first grid on which one of them does is the coarsest.

* `Decimal.shortest` — the decimal of a finite magnitude;
* `Decimal.text` — the text of any double, positional at every size, as in `0.1`, `-0`, `3` and
  `100000000000000000000000`.
-/

namespace CharacterSheet

open Binary64

/-- The power of ten at or below `num / den`, for a quotient that is not zero. -/
def floorLog10 (num den : Nat) : Int :=
  if den ≤ num then digitCount (num / den) - 1 else -(digitCount (divUp den num - 1) : Int)

namespace Decimal

/-- A magnitude counted in steps of `10 ^ exponent`, as a numerator and a denominator. -/
def steps (magnitude : Nat) (exponent : Int) : Nat × Nat :=
  (magnitude * Nat.pow 10 (-exponent).toNat, unity * Nat.pow 10 exponent.toNat)

/-- Whether a decimal reads as the double of the given magnitude. -/
def readsAs (d : Decimal) (k : Nat) : Bool := magnitude (d.toFloat false) == k

/-- The multiple of `10 ^ exponent` that reads as the double of magnitude `k`, if there is one. Of
two it is the nearer, and of two equally near the larger. -/
def onGrid? (k : Nat) (exponent : Int) : Option Decimal :=
  let (num, den) := steps k exponent
  let below : Decimal := ⟨num / den, exponent⟩
  let above : Decimal := ⟨num / den + 1, exponent⟩
  match below.readsAs k, above.readsAs k with
  | true, true => some (if 2 * (num % den) < den then below else above)
  | true, false => some below
  | false, true => some above
  | false, false => none

/-- A magnitude written out in full. -/
def exact (k : Nat) : Decimal := ⟨k * Nat.pow 5 1074, -1074⟩

/-- The decimal with the fewest digits that reads as the double of magnitude `k`. Seventeen digits
are always enough. -/
def shortest (k : Nat) : Decimal :=
  if k = 0 then ⟨0, 0⟩
  else
    let top := floorLog10 k unity + 1
    ((List.range 19).findSome? fun (i : Nat) => onGrid? k (top - i)).getD (exact k)

/-- The text of a double: its shortest decimal without an exponent, after the sign. -/
def text (x : Float) : String :=
  if x.isNaN then "NaN"
  else
    let sign := if isNegative x then ['-'] else []
    if x.isInf then String.ofList (sign ++ ['i', 'n', 'f'])
    else String.ofList (sign ++ (shortest (magnitude x)).toChars)

end Decimal

end CharacterSheet
