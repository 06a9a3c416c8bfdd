import CharacterSheet.Binary64.Elementary
import CharacterSheet.Formula.Error

/-!
# The functions that formulas may call

All functions are real-valued: outside the domain of a function, and where its value is past the
range of doubles, there is an error in place of NaN or an infinity. A function reads its arguments
by their positions, and is stuck where it asks for one that is not there.

* `Arity` — how many arguments a function takes;
* `MathFunction`, `MathFunction.ofName?` — the functions, and the one of a given name;
* `FromArguments` — what is worked out from arguments that are read by position;
* `MathFunction.plainValue` — the plain value of a function, which may be NaN or an infinity;
* `MathFunction.call` — the value of a function at a list of arguments;
* `MathFunction.plainValueWith`, `MathFunction.callWith` — the same with powers of ten that are worked
  out in some other way.
-/

namespace CharacterSheet

open Binary64

/-- How many arguments a function takes. -/
inductive Arity
  | exact (count : Nat)
  | between (min max : Nat)
  | atLeast (min : Nat)
  deriving DecidableEq, Repr

namespace Arity

/-- Whether a function takes so many arguments. -/
def accepts : Arity → Nat → Bool
  | exact n, count => count == n
  | between min max, count => min ≤ count && count ≤ max
  | atLeast min, count => min ≤ count

/-- The arity in words. -/
def describe : Arity → String
  | exact n => s!"{n}"
  | between min max => s!"{min} to {max}"
  | atLeast min => s!"at least {min}"

end Arity

/-- A function that formulas may call. -/
inductive MathFunction
  | abs
  | fabs
  | sqrt
  | exp
  | expm1
  | log
  | log2
  | log10
  | log1p
  | pow
  | sin
  | cos
  | tan
  | asin
  | acos
  | atan
  | atan2
  | sinh
  | cosh
  | tanh
  | asinh
  | acosh
  | atanh
  | hypot
  | degrees
  | radians
  | floor
  | ceil
  | trunc
  | round
  | copysign
  | fmod
  | min
  | max
  deriving DecidableEq, Repr

namespace MathFunction

/-- All functions. -/
def all : List MathFunction :=
  [abs, fabs, sqrt, exp, expm1, log, log2, log10, log1p, pow, sin, cos, tan, asin, acos, atan,
   atan2, sinh, cosh, tanh, asinh, acosh, atanh, hypot, degrees, radians, floor, ceil, trunc,
   round, copysign, fmod, min, max]

/-- The name that formulas call a function by. -/
def name : MathFunction → String
  | abs => "abs"
  | fabs => "fabs"
  | sqrt => "sqrt"
  | exp => "exp"
  | expm1 => "expm1"
  | log => "log"
  | log2 => "log2"
  | log10 => "log10"
  | log1p => "log1p"
  | pow => "pow"
  | sin => "sin"
  | cos => "cos"
  | tan => "tan"
  | asin => "asin"
  | acos => "acos"
  | atan => "atan"
  | atan2 => "atan2"
  | sinh => "sinh"
  | cosh => "cosh"
  | tanh => "tanh"
  | asinh => "asinh"
  | acosh => "acosh"
  | atanh => "atanh"
  | hypot => "hypot"
  | degrees => "degrees"
  | radians => "radians"
  | floor => "floor"
  | ceil => "ceil"
  | trunc => "trunc"
  | round => "round"
  | copysign => "copysign"
  | fmod => "fmod"
  | min => "min"
  | max => "max"

theorem mem_all (f : MathFunction) : f ∈ all := by cases f <;> decide

/-- The function of a given name. -/
def ofName? (name : String) : Option MathFunction := all.find? fun f => f.name == name

/-- The function of a given name, or the error of calling an unknown one. -/
def resolve (name : String) : Except EvalError MathFunction :=
  match ofName? name with
  | some f => .ok f
  | none => .error (.unknownFunction name)

/-- How many arguments a function takes. -/
def arity : MathFunction → Arity
  | log | round => .between 1 2
  | pow | atan2 | hypot | copysign | fmod => .exact 2
  | min | max => .atLeast 1
  | _ => .exact 1

end MathFunction

/-- Why a power of real numbers is none. -/
inductive PowerError
  | zeroToNegative
  | complex
  deriving DecidableEq, Repr

/-- A real power. Zero has no negative powers, and a negative base only powers with whole
exponents. -/
def realPower (base exponent : Float) : Except PowerError Float :=
  if base == 0 && exponent < 0 then .error .zeroToNegative
  else if base < 0 && !isIntegral exponent then .error .complex
  else .ok (power base exponent)

namespace MathFunction

/-- The logarithm of `x` to a base. There is none to a base of one, or of zero or less. -/
def logToBase (x base : Float) : Option Float :=
  if base ≤ 0 || base == 1 then none else some (x.log / base.log)

/-- The number `x` rounded to a number of decimal places, which may be negative: scaled up by a
power of ten, rounded to the nearest whole number with halves going to the even one, and scaled
back. The number of places has to be whole. How the power of ten is worked out is left open. -/
def roundToPlaces (powerOfTen : Float → Float) (x places : Float) : Option Float :=
  if isIntegral places then
    let scale := powerOfTen places
    some (roundHalfEven (x * scale) / scale)
  else none

end MathFunction

/-- Why a function has no plain value. -/
inductive Obstacle
  /-- The arguments are outside the domain. -/
  | outsideDomain
  /-- The function asks for an argument at a position where there is none. -/
  | missing (position : Nat)
  deriving DecidableEq, Repr

/-- What is worked out from a list of arguments, which are read by their positions. -/
abbrev FromArguments (α : Type) := ReaderT (List Float) (Except Obstacle) α

namespace FromArguments

/-- The argument at a position, which has to be there. -/
def argument (position : Nat) : FromArguments Float := fun args =>
  match args[position]? with
  | some x => .ok x
  | none => .error (.missing position)

/-- The argument at a position, if there is one. -/
def argument? (position : Nat) : FromArguments (Option Float) := fun args => .ok args[position]?

/-- A value, which is missing outside the domain. -/
def inDomain (value : Option Float) : FromArguments Float := fun _ =>
  match value with
  | some v => .ok v
  | none => .error .outsideDomain

end FromArguments

namespace MathFunction

open FromArguments

/-- The plain value of a function, with given powers of ten to round to decimal places by: NaN or an
infinity where it has none, or nothing. The least and greatest take all arguments into account. -/
def plainValueWith (powerOfTen : Float → Float) (f : MathFunction) : FromArguments Float := do
  let x ← argument 0
  match f with
  | abs | fabs => return x.abs
  | sqrt => return x.sqrt
  | exp => return x.exp
  | expm1 => return Binary64.expm1 x
  | log =>
    match ← argument? 1 with
    | none => return x.log
    | some base => inDomain (logToBase x base)
  | log2 => return x.log2
  | log10 => return x.log10
  | log1p => return Binary64.log1p x
  | pow => inDomain (realPower x (← argument 1)).toOption
  | sin => return x.sin
  | cos => return x.cos
  | tan => return x.tan
  | asin => return x.asin
  | acos => return x.acos
  | atan => return x.atan
  | atan2 => return x.atan2 (← argument 1)
  | sinh => return x.sinh
  | cosh => return x.cosh
  | tanh => return x.tanh
  | asinh => return arsinh x
  | acosh => return arcosh x
  | atanh => return artanh x
  | hypot => return Binary64.hypot x (← argument 1)
  | degrees => return Binary64.degrees x
  | radians => return Binary64.radians x
  | floor => return Binary64.floor x
  | ceil => return Binary64.ceil x
  | trunc => return Binary64.trunc x
  | round =>
    match ← argument? 1 with
    | none => return roundHalfEven x
    | some places => inDomain (roundToPlaces powerOfTen x places)
  | copysign => return copySign x (← argument 1)
  | fmod =>
    let y ← argument 1
    inDomain (if y == 0 then none else some (truncMod x y))
  | min => return (← read).foldl lesser x
  | max => return (← read).foldl greater x

/-- The plain value of a function, with the powers of ten of `power`. -/
def plainValue (f : MathFunction) : FromArguments Float := f.plainValueWith (power 10)

/-- The value of a function at a list of arguments, with given powers of ten. -/
def callWith (powerOfTen : Float → Float) (f : MathFunction) (args : List Float) :
    Except EvalError Float :=
  if f.arity.accepts args.length then
    match f.plainValueWith powerOfTen args with
    | .ok value => if value.isFinite then .ok value else .error (.domain f.name)
    | .error _ => .error (.domain f.name)
  else .error (.arity f.name f.arity.describe args.length)

/-- The value of a function at a list of arguments. -/
def call (f : MathFunction) (args : List Float) : Except EvalError Float :=
  f.callWith (power 10) args

end MathFunction

end CharacterSheet
