import TinyScript.Number.Decimal

/-!
# Numerals

A numeral is an optional minus sign, digits, an optional point that more digits may follow, and an
optional exponent. It denotes the number nearest to it.
-/

namespace TinyScript.Number

/-- The parts of a numeral. -/
structure Numeral where
  negative : Bool
  whole : List Char
  fraction : List Char
  exponent : Int
deriving DecidableEq

namespace Numeral

/-- The value of a text of one or more digits. -/
def readDigits? (chars : List Char) : Option Nat :=
  if chars ≠ [] ∧ chars.all Char.isDigit then some (Nat.ofDigitChars 10 chars 0) else none

/-- The exponent that a text denotes, which is zero if the text is empty. -/
def readExponent? : List Char → Option Int
  | [] => some 0
  | mark :: chars =>
    if mark = 'e' ∨ mark = 'E' then
      match chars with
      | '+' :: digits => (readDigits? digits).map Int.ofNat
      | '-' :: digits => (readDigits? digits).map fun n => -(n : Int)
      | digits => (readDigits? digits).map Int.ofNat
    else none

/-- Reads a numeral behind its sign. -/
def readUnsigned? (negative : Bool) (chars : List Char) : Option Numeral :=
  let whole := chars.takeWhile Char.isDigit
  if whole = [] then none
  else match chars.dropWhile Char.isDigit with
    | '.' :: rest =>
      (readExponent? (rest.dropWhile Char.isDigit)).map fun exponent =>
        ⟨negative, whole, rest.takeWhile Char.isDigit, exponent⟩
    | rest => (readExponent? rest).map fun exponent => ⟨negative, whole, [], exponent⟩

/-- Reads a text that is a numeral from its start to its end. -/
def read? : List Char → Option Numeral
  | '-' :: chars => readUnsigned? true chars
  | chars => readUnsigned? false chars

/-- The value without the sign. -/
def decimal (numeral : Numeral) : Decimal where
  digits := Nat.ofDigitChars 10 (numeral.whole ++ numeral.fraction) 0
  exponent := numeral.exponent - numeral.fraction.length

def toNumber (numeral : Numeral) : Number :=
  ofMagnitude numeral.negative numeral.decimal.magnitude

end Numeral

end TinyScript.Number
