import CharacterSheet.Decimal.Shortest

/-!
# Scientific notation with a fixed number of digits

* `Decimal.scientific` — a finite double with a given number of significant digits, as in
  `9.68912421711e-1`. The digits are those of the exact value, a half going to the even digit.
-/

namespace CharacterSheet.Decimal

open Binary64

/-- The coefficient of `places + 1` digits and the leading power of ten of a magnitude. -/
def significant (places k : Nat) : Nat × Int :=
  if k = 0 then (0, 0)
  else
    let lead := floorLog10 k unity
    let (num, den) := steps k (lead - places)
    let c := divHalfEven num den
    if c = Nat.pow 10 (places + 1) then (Nat.pow 10 places, lead + 1) else (c, lead)

/-- A finite double with `places` digits behind the point and an exponent. -/
def scientific (places : Nat) (x : Float) : String :=
  let (c, lead) := significant places (magnitude x)
  let digits := Nat.toDigits 10 c
  let padded := List.replicate (places + 1 - digits.length) '0' ++ digits
  let sign := if isNegative x then ['-'] else []
  let mantissa := padded.take 1 ++ '.' :: padded.drop 1
  let power := (if lead < 0 then ['-'] else []) ++ Nat.toDigits 10 lead.natAbs
  String.ofList (sign ++ mantissa ++ 'e' :: power)

end CharacterSheet.Decimal
