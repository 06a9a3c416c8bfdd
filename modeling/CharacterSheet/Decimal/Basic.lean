import CharacterSheet.Binary64.Basic

/-!
# Decimal numbers

A decimal is a natural number times a power of ten. Written numbers are decimals first and doubles
afterwards, so this module separates the grammar of a literal from the rounding of its value.

* `Decimal.toFloat` — the double nearest to a decimal, a tie going to the even significand;
* `Decimal.toChars` — a decimal written out without an exponent;
* `Decimal.read?` — the decimal that a literal such as `12`, `.5`, `1.` or `2.5E-4` stands for.
-/

namespace CharacterSheet

open Binary64

/-- The number `coefficient * 10 ^ exponent`. -/
structure Decimal where
  coefficient : Nat
  exponent : Int
  deriving DecidableEq, Repr

/-- How many decimal digits a natural number is written with. -/
def digitCount (n : Nat) : Nat := (Nat.toDigits 10 n).length

namespace Decimal

/-- A bound, in decimal places, on both ends of the range of doubles. -/
def rangePlaces : Int := 400

/-- The double nearest to a decimal. What is written with hundreds of places before or behind the
point is past the range of doubles, and its power of ten is not worked out. -/
def toFloat (negative : Bool) (d : Decimal) : Float :=
  let places := digitCount d.coefficient + d.exponent
  if d.coefficient = 0 || places < -rangePlaces then ofRatio negative 0 1
  else if rangePlaces < places then infinity negative
  else
    ofRatio negative (d.coefficient * Nat.pow 10 d.exponent.toNat * unity)
      (Nat.pow 10 (-d.exponent).toNat)

/-- The digits of a decimal with its point, and without an exponent. -/
def toChars (d : Decimal) : List Char :=
  let digits := Nat.toDigits 10 d.coefficient
  let places := (-d.exponent).toNat
  if places = 0 then digits ++ List.replicate d.exponent.toNat '0'
  else
    let padded := List.replicate (places + 1 - digits.length) '0' ++ digits
    let point := padded.length - places
    padded.take point ++ '.' :: padded.drop point

/-- The exponent of a literal, after its letter: an optional sign and at least one digit, up to the
end of the text. -/
def exponent? (cs : List Char) : Option Int :=
  let (negative, digits) := match cs with
    | '+' :: r => (false, r)
    | '-' :: r => (true, r)
    | r => (false, r)
  if digits.isEmpty || !digits.all Char.isDigit then none
  else
    let n : Int := Nat.ofDigitChars 10 digits 0
    some (if negative then -n else n)

/-- The value of a whole literal: digits with at most one point among or around them, at least one
digit, and perhaps an exponent. -/
def read? (cs : List Char) : Option Decimal :=
  let whole := cs.takeWhile Char.isDigit
  let rest := cs.dropWhile Char.isDigit
  let (fraction, rest) := match rest with
    | '.' :: r => (r.takeWhile Char.isDigit, r.dropWhile Char.isDigit)
    | r => ([], r)
  let coefficient := Nat.ofDigitChars 10 (whole ++ fraction) 0
  if whole.isEmpty && fraction.isEmpty then none
  else match rest with
    | [] => some ⟨coefficient, -fraction.length⟩
    | c :: r =>
      if c == 'e' || c == 'E' then
        (exponent? r).map fun e => ⟨coefficient, e - fraction.length⟩
      else none

end Decimal

end CharacterSheet
