import TinyScript.Number.Numeral
import TinyScript.Token.Kind
import TinyScript.Value.Basic

/-!
# Literals

The value that a literal token denotes.
-/

namespace TinyScript.Value

/-- The text between the first and the last character of a spelling. -/
def betweenQuotes (spelling : String) : String :=
  .ofList (spelling.toList.drop 1).dropLast

def ofLiteral? (token : Token) : Option Value :=
  match token.kind with
  | .boolLiteral => some (boolean (token.spelling = "true"))
  | .numberLiteral =>
    (Number.Numeral.read? token.spelling.toList).map fun numeral => number numeral.toNumber
  | .charLiteral => token.spelling.toList[1]?.map character
  | .stringLiteral => some (string (betweenQuotes token.spelling))
  | _ => none

end TinyScript.Value
