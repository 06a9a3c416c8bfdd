import CharacterSheet.Binary64.Integral
import CharacterSheet.Binary64.Order

/-!
# Elementary functions

The functions of a pocket calculator that the core library does not have, in terms of those that
it has. Each one is written so that it keeps nearly all digits where the textbook formula would
cancel them, next to zero for `expm1` and `log1p` and next to one for `arcosh`, and so that no step
leaves the range of doubles where the result is inside it.

The formulas are this library's own. Those of a mathematical library may give other last digits, and
next to the largest doubles they may overflow where these do not, or the other way round.

* `expm1`, `log1p` — the exponential less one, and the logarithm of one more;
* `hypot` — the length of a hypotenuse;
* `arsinh`, `arcosh`, `artanh` — the inverses of the hyperbolic functions;
* `degrees`, `radians` — the two measures of an angle;
* `power` — a number raised to another.
-/

namespace CharacterSheet.Binary64

/-- The exponential of `x`, less one. The quotient of `u - 1` by the logarithm of `u` is insensitive
to the error of `u`, so an approximate exponential is enough, and the last digits are those of this
quotient. Where `u` is lost in the difference, its logarithm does not matter either. -/
def expm1 (x : Float) : Float :=
  let u := x.exp
  if u == 1 then x
  else if u - 1 == -1 then -1
  else if !u.isFinite then u
  else (u - 1) * (x / u.log)

/-- The logarithm of `1 + x`, by the quotient that `expm1` uses, with the last digits of that. -/
def log1p (x : Float) : Float :=
  let u := 1 + x
  if u == 1 then x
  else if u.isInf then u
  else u.log * (x / (u - 1))

/-- The square root of the sum of two squares, by the ratio of the smaller to the larger, so that
neither square leaves the range. Each step is rounded, and a root that is rounded once may have
another last digit, or be finite next to the largest double where this one is not. -/
def hypot (x y : Float) : Float :=
  if x.isInf || y.isInf then infinity false
  else
    let long := greater x.abs y.abs
    let short := lesser x.abs y.abs
    if x.isNaN || y.isNaN then 0 / 0
    else if long == 0 then long
    else
      let r := short / long
      long * (1 + r * r).sqrt

/-- From here on, the square of a number and the same square plus or minus one are one double. -/
def squareAbsorbsOne : Float := 268435456

/-- The logarithm of twice a number, which may itself be out of range. -/
def logTwice (x : Float) : Float := x.log + (2 : Float).log

/-- The inverse hyperbolic sine. The doubled argument is not worked out, so that the largest doubles
have a value too; a formula that doubles its argument overflows from half of the largest one on. -/
def arsinh (x : Float) : Float :=
  let a := x.abs
  let s := a * a
  copySign (if squareAbsorbsOne < a then logTwice a else log1p (a + s / (1 + (s + 1).sqrt))) x

/-- The inverse hyperbolic cosine, for arguments from one on, up to the largest doubles as `arsinh`. -/
def arcosh (x : Float) : Float :=
  if x < 1 then 0 / 0
  else if squareAbsorbsOne < x then logTwice x
  else
    let t := x - 1
    log1p (t + (t * (t + 2)).sqrt)

/-- The inverse hyperbolic tangent. Next to minus one it has the error of its quotient. -/
def artanh (x : Float) : Float := 0.5 * log1p (2 * x / (1 - x))

/-- The ratio of a half turn to its diameter. -/
def pi : Float := 3.141592653589793

/-- An angle in degrees, from radians. -/
def degrees (x : Float) : Float := x * (180 / pi)

/-- An angle in radians, from degrees. -/
def radians (x : Float) : Float := x * (pi / 180)

/-- Whether a double is an odd whole number. -/
def isOdd (x : Float) : Bool := isIntegral x && magnitude x / unity % 2 == 1

/-- The number `x` raised to `y`. Already `2 ^ 1024` is past the largest double, so a base of two or
more and an exponent of 1024 or more give an infinity, which is negative for a negative base and an
odd exponent. -/
def power (x y : Float) : Float :=
  if 2 ≤ x.abs && 1024 ≤ y then infinity (isNegative x && isOdd y) else x.pow y

end CharacterSheet.Binary64
