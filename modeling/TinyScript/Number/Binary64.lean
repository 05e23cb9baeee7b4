/-!
# Numbers as exact quantities

A number of the language is an IEEE 754 binary64, and it is kept as its pattern of bits. A finite
one is a whole number of units, a unit being `2 ^ -1074`, the least positive number. The patterns of
the numbers that are not negative, read as natural numbers, stand in the order of the numbers
themselves, with infinity above all finite ones and what is not a number above infinity. So a number
is its sign and the rest of its pattern, here called its magnitude.
-/

namespace TinyScript

/-- A number, given by its pattern. Both zeros and all that is not a number stay apart. -/
structure Number where
  bits : UInt64
deriving DecidableEq, Repr, Inhabited

namespace Number

-- Powers are written `Nat.pow`, since `^` may come from another instance in an importing module.

/-- How many units make one. -/
def unitsPerOne : Nat := Nat.pow 2 1074

def infinityMagnitude : Nat := 2047 * Nat.pow 2 52

/-- The units of a finite magnitude. The lowest binade has no leading bit to add. -/
def units (magnitude : Nat) : Nat :=
  if magnitude < Nat.pow 2 52 then magnitude
  else (magnitude % Nat.pow 2 52 + Nat.pow 2 52) * Nat.pow 2 (magnitude / Nat.pow 2 52 - 1)

def isNegative (x : Number) : Bool :=
  Nat.pow 2 63 ≤ x.bits.toNat

def magnitude (x : Number) : Nat :=
  x.bits.toNat % Nat.pow 2 63

def ofMagnitude (negative : Bool) (magnitude : Nat) : Number :=
  ⟨.ofNat (magnitude + if negative then Nat.pow 2 63 else 0)⟩

/-- Whether this is not a number. -/
def isNaN (x : Number) : Bool :=
  infinityMagnitude < x.magnitude

/-- Equality of numbers. The two zeros are equal, and what is not a number differs from itself. -/
def equals (x y : Number) : Bool :=
  !x.isNaN && (x = y || x.magnitude = 0 && y.magnitude = 0)

/-! ## Arithmetic -/

def toFloat (x : Number) : Float :=
  .ofBits x.bits

def ofFloat (x : Float) : Number :=
  ⟨x.toBits⟩

instance : Add Number := ⟨fun x y => ofFloat (x.toFloat + y.toFloat)⟩

instance : Mul Number := ⟨fun x y => ofFloat (x.toFloat * y.toFloat)⟩

instance : Div Number := ⟨fun x y => ofFloat (x.toFloat / y.toFloat)⟩

/-! ## Rounding -/

/-- The integer nearest to the quotient, the even one of two that are equally near. -/
def roundDiv (num den : Nat) : Nat :=
  let quotient := num / den
  let remainder := num % den
  if 2 * remainder < den then quotient
  else if den < 2 * remainder then quotient + 1
  else quotient + quotient % 2

/-- The magnitude nearest to the quotient. A significand has at most 53 bits, so larger quotients
are rounded to multiples of a power of two. A significand that is rounded up to 54 bits gives the
first magnitude of the next binade. -/
def nearest (num den : Nat) : Nat :=
  let scaled := num * unitsPerOne
  let shift := (scaled / den).log2 - 52
  min (shift * Nat.pow 2 52 + roundDiv scaled (den * Nat.pow 2 shift)) infinityMagnitude

/-- The number nearest to a natural number, which is that number itself up to `2 ^ 53`. -/
def ofNat (n : Nat) : Number :=
  ofMagnitude false (nearest n 1)

/-! ## Integers and order -/

/-- What a number counts: an integer if it is one. -/
inductive Count where
  | integer (n : Int)
  | infinite
  /-- Not a number, or between two integers. -/
  | none
deriving DecidableEq

def count (x : Number) : Count :=
  if x.isNaN then .none
  else if x.magnitude = infinityMagnitude then .infinite
  else if units x.magnitude % unitsPerOne = 0 then
    let n : Int := units x.magnitude / unitsPerOne
    .integer (if x.isNegative then -n else n)
  else .none

/-- The natural number that a number counts, and zero if it counts none. -/
def toNat (x : Number) : Nat :=
  match x.count with
  | .integer n => n.toNat
  | .infinite | .none => 0

/-- Places every number on one line: negative ones by falling magnitude, then the others by rising
magnitude. So `-0` comes just before `0`, and what is not a number stands at the ends, on the side
of its sign. -/
def rank (x : Number) : Int :=
  if x.isNegative then -1 - (x.magnitude : Int) else x.magnitude

/-- Whether a number is less than another. Neither zero is less than the other, and what is not a
number is neither less nor more than anything. -/
def less (x y : Number) : Bool :=
  !x.isNaN && !y.isNaN && x.rank < y.rank && !(x.magnitude = 0 && y.magnitude = 0)

def atMost (x y : Number) : Bool :=
  x.less y || x.equals y

end Number

end TinyScript
