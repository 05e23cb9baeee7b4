import TinyScript.Number.Numeral

/-!
# Texts of numbers

A number is written with the fewest digits, in positional form, and what is not finite is written by
name. All such texts are read back, and so are names in any case of letters, a plus sign, a point
before the first digit and an exponent.
-/

namespace TinyScript.Number

/-! ## Writing -/

/-- The text of a number without its sign. -/
def magnitudeText (size : Nat) : String :=
  if infinityMagnitude < size then "NaN"
  else if size = infinityMagnitude then "inf"
  else if size = 0 then "0"
  else (Decimal.shortest size).text

/-- The text of a number. Zero keeps its sign, and what is not a number has none. -/
def text (x : Number) : String :=
  if x.isNegative && !x.isNaN then "-" ++ magnitudeText x.magnitude
  else magnitudeText x.magnitude

/-! ## Reading -/

/-- The magnitude that is read for what is not a number. -/
def nanMagnitude : Nat := infinityMagnitude + Nat.pow 2 51

/-- The magnitude that a name in lower case stands for. -/
def namedMagnitude? (name : String) : Option Nat :=
  if name = "inf" ∨ name = "infinity" then some infinityMagnitude
  else if name = "nan" then some nanMagnitude
  else none

/-- Reads a numeral behind its sign. A point before the first digit is read as if a zero stood
before it. -/
def readNumeral? (negative : Bool) : List Char → Option Numeral
  | '.' :: c :: chars =>
    if c.isDigit then Numeral.readUnsigned? negative ('0' :: '.' :: c :: chars) else none
  | chars => Numeral.readUnsigned? negative chars

/-- Reads a text behind its sign. -/
def readUnsigned? (negative : Bool) (chars : List Char) : Option Number :=
  match namedMagnitude? (.ofList (chars.map Char.toLower)) with
  | some size => some (ofMagnitude negative size)
  | none => (readNumeral? negative chars).map Numeral.toNumber

/-- The number that a text denotes. -/
def ofText? (text : String) : Option Number :=
  match text.toList with
  | '+' :: chars => readUnsigned? false chars
  | '-' :: chars => readUnsigned? true chars
  | chars => readUnsigned? false chars

end TinyScript.Number
