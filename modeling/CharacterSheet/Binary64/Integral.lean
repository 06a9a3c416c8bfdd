import CharacterSheet.Binary64.Basic

/-!
# Rounding to whole numbers, and remainders

Each rounding counts a double in units, divides by the units in one, and puts the sign back, so a
negative number that rounds to nothing gives negative zero. Infinities and NaN are left alone.

* `trunc`, `floor`, `ceil` — toward zero, down and up;
* `roundHalfEven` — to the nearest whole number, a half going to the even one;
* `truncMod` — what is left of a dividend by a division whose quotient is rounded toward zero;
* `floorMod` — the same with the quotient rounded down, corrected in one rounded addition.
-/

namespace CharacterSheet.Binary64

/-- Replaces a finite magnitude by the whole number that `f` gives for it, keeping the sign. -/
def roundBy (f : Bool → Nat → Nat) (x : Float) : Float :=
  if x.isFinite then ofRatio (isNegative x) (f (isNegative x) (magnitude x) * unity) 1 else x

/-- The whole number next to `x` on the side of zero. -/
def trunc (x : Float) : Float := roundBy (fun _ k => k / unity) x

/-- The largest whole number that is not above `x`. -/
def floor (x : Float) : Float :=
  roundBy (fun negative k => if negative then divUp k unity else k / unity) x

/-- The smallest whole number that is not below `x`. -/
def ceil (x : Float) : Float :=
  roundBy (fun negative k => if negative then k / unity else divUp k unity) x

/-- The whole number nearest to `x`; of two equally near, the even one. -/
def roundHalfEven (x : Float) : Float := roundBy (fun _ k => divHalfEven k unity) x

/-- The remainder of `x` by `y` that has the sign of `x`. It is exact; a dividend that is not
finite and a divisor that is zero leave no remainder. -/
def truncMod (x y : Float) : Float :=
  if x.isNaN || y.isNaN || x.isInf || y == 0 then 0 / 0
  else if y.isInf then x
  else ofRatio (isNegative x) (magnitude x % magnitude y) 1

/-- The remainder of `x` by `y` moved to the side of the divisor: if the exact remainder has the
other sign, the divisor is added to it once, and that sum is rounded. -/
def floorMod (x y : Float) : Float :=
  let r := truncMod x y
  if r != 0 && decide (r < 0) != decide (y < 0) then r + y else r

end CharacterSheet.Binary64
