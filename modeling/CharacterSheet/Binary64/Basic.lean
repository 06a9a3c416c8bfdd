/-!
# Doubles as whole numbers of a smallest unit

The smallest positive double is `2 ^ (-1074)`, and every finite double is a whole number of these
units. Rounding, remainders and decimal text are therefore questions about natural numbers, and
this module holds the passage between the two.

* `magnitude`, `scaled` — a finite double counted in units, without and with its sign;
* `divHalfEven` — the natural number nearest to a quotient, a tie going to the even one;
* `ofRatio` — the double nearest to a quotient of units, a tie going to the even significand;
* `ofInt`, `toInt?` — the passage between integers and doubles.
-/

namespace CharacterSheet.Binary64

/-- The weight of the sign bit, when the bits of a double are read as a number. -/
def signBit : Nat := Nat.pow 2 63

/-- The weight of the leading one of a significand, which is not stored. -/
def leadingOne : Nat := Nat.pow 2 52

/-- The stored exponent, eleven bits wide. -/
def exponentField (x : Float) : Nat := x.toBits.toNat / leadingOne % 2048

/-- The stored fraction, fifty-two bits wide. -/
def fractionField (x : Float) : Nat := x.toBits.toNat % leadingOne

/-- The sign bit. It is also set for negative zero. -/
def isNegative (x : Float) : Bool := decide (signBit ≤ x.toBits.toNat)

/-- The significand: the stored fraction, under a leading one unless the number is subnormal. -/
def significand (x : Float) : Nat :=
  if exponentField x = 0 then fractionField x else leadingOne + fractionField x

/-- How often the smallest unit is doubled to give the weight of the last significand bit. -/
def unitExponent (x : Float) : Nat := exponentField x - 1

/-- The number of units in one. -/
def unity : Nat := Nat.pow 2 1074

/-- The absolute value of a finite double, in units. -/
def magnitude (x : Float) : Nat := significand x * Nat.pow 2 (unitExponent x)

/-- The value of a finite double, in units. Both zeros give `0`. -/
def scaled (x : Float) : Int := if isNegative x then -(magnitude x : Int) else magnitude x

/-- The natural number nearest to `num / den`; of two equally near, the even one. -/
def divHalfEven (num den : Nat) : Nat :=
  let quotient := num / den
  let excess := 2 * (num % den)
  if excess < den then quotient
  else if den < excess then quotient + 1
  else quotient + quotient % 2

/-- The quotient of two natural numbers, rounded up. -/
def divUp (num den : Nat) : Nat := (num + (den - 1)) / den

/-- The bits below the sign that stand for an infinity. -/
def infinityBits : Nat := 2047 * leadingOne

/-- The double with the given sign whose other bits, read as a number, are `bits`. Successive
numbers give successive doubles, up to `infinityBits`. -/
def ofSignBits (negative : Bool) (bits : Nat) : Float :=
  Float.ofBits (UInt64.ofNat ((if negative then signBit else 0) + bits))

/-- The infinity of the given sign. -/
def infinity (negative : Bool) : Float := ofSignBits negative infinityBits

/-- How often the unit is doubled before fifty-three bits hold the whole part of `num / den`. -/
def binade (num den : Nat) : Nat := (num / den).log2 - 52

/-- The double nearest to `num / den` units, with the given sign. A tie goes to the even
significand, and what rounds past the largest double is an infinity. -/
def ofRatio (negative : Bool) (num den : Nat) : Float :=
  let p := binade num den
  ofSignBits negative (min (p * leadingOne + divHalfEven num (den * Nat.pow 2 p)) infinityBits)

/-- The double nearest to an integer, a tie going to the even significand. -/
def ofInt (n : Int) : Float := ofRatio (decide (n < 0)) (n.natAbs * unity) 1

/-- Whether a double is a whole number. Infinities and NaN are not. -/
def isIntegral (x : Float) : Bool := x.isFinite && magnitude x % unity == 0

/-- The integer that a double is equal to, if there is one. -/
def toInt? (x : Float) : Option Int := if isIntegral x then some (scaled x / unity) else none

theorem divHalfEven_one (n : Nat) : divHalfEven n 1 = n := by
  simp [divHalfEven, Nat.mod_one]

theorem divHalfEven_mul_right (num den : Nat) {c : Nat} (hc : 0 < c) :
    divHalfEven (num * c) (den * c) = divHalfEven num den := by
  simp only [divHalfEven, Nat.mul_div_mul_right _ _ hc, Nat.mul_mod_mul_right, ← Nat.mul_assoc,
    Nat.mul_lt_mul_right hc]

end CharacterSheet.Binary64
