import TinyScript.Number.Binary64

/-!
# Decimals

A decimal is a natural number of units of a power of ten. It is read as the number nearest to it.
A number is written with the fewest digits that are read as that number again.
-/

namespace TinyScript.Number

/-- The value is `digits * 10 ^ exponent`. -/
structure Decimal where
  digits : Nat
  exponent : Int
deriving DecidableEq, Repr

namespace Decimal

/-- The magnitude nearest to the decimal. The first bounds keep powers of ten small: a decimal with
an exponent above 400 exceeds every finite number, and one below `10 ^ -400` is nearest to zero. -/
def magnitude (decimal : Decimal) : Nat :=
  if decimal.digits = 0 then 0
  else if 400 < decimal.exponent then infinityMagnitude
  else if decimal.exponent + decimal.digits.log2 + 1 < -400 then 0
  else if 0 ≤ decimal.exponent then nearest (decimal.digits * Nat.pow 10 decimal.exponent.toNat) 1
  else nearest decimal.digits (Nat.pow 10 (-decimal.exponent).toNat)

/-! ## Fewest digits -/

/-- A finite number is a multiple of `10 ^ -1074`, and this many of them make a unit. -/
def stepsPerUnit : Nat := Nat.pow 5 1074

/-- Of the two multiples of `10 ^ exponent` around the number, where `exponent` is `place - 1074`,
the nearer that is read as the number. Of two equally near the larger is taken. -/
def onGrid? (size place : Nat) : Option Decimal :=
  let steps := units size * stepsPerUnit
  let grid := Nat.pow 10 place
  let below : Decimal := ⟨steps / grid, place - 1074⟩
  let above : Decimal := { below with digits := below.digits + 1 }
  let nearer := if 2 * (steps % grid) < grid then below else above
  let farther := if 2 * (steps % grid) < grid then above else below
  if nearer.magnitude = size then some nearer
  else if farther.magnitude = size then some farther
  else none

/-- The first decimal that is found on the grids from `place` down to the finest, on which the
number itself lies. -/
def onGridsFrom (size : Nat) : Nat → Decimal
  | 0 => ⟨units size * stepsPerUnit, -1074⟩
  | place + 1 => (onGrid? size (place + 1)).getD (onGridsFrom size place)

/-- The decimal with the fewest digits that is read as the given finite magnitude. The search starts
where one step of the grid exceeds the number: `0.30103` is more than the decimal logarithm of 2. -/
def shortest (size : Nat) : Decimal :=
  onGridsFrom size (((units size * stepsPerUnit).log2 + 1) * 30103 / 100000 + 1)

/-! ## Text -/

/-- Positional text, without exponent: a point only if there are places behind it, and at least one
digit before it. -/
def text (decimal : Decimal) : String :=
  let digits := Nat.toDigits 10 decimal.digits
  if 0 ≤ decimal.exponent then
    .ofList (digits ++ .replicate decimal.exponent.toNat '0')
  else
    let places := (-decimal.exponent).toNat
    let padded := .replicate (places + 1 - digits.length) '0' ++ digits
    let whole := padded.length - places
    .ofList (padded.take whole ++ '.' :: padded.drop whole)

end Decimal

end TinyScript.Number
