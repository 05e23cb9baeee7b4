import TinyScript.Value.Basic

/-!
# Errors

The causes for which a program is refused or a statement fails, and the text that reports each.
-/

namespace TinyScript

/-- Why the tokens of a program form no statement. -/
inductive SyntaxError where
  | unexpectedEnd
  | unknownStatement (token : String)
  | unknownValue (token : String)
  | malformed (construct expected found : String)
  | illegalAssignmentTarget (token : String)
  | expectedOperator (found : String)
  | expectedIdentifier (what found : String)
deriving DecidableEq, Repr

/-- Why a statement that was understood could not be carried out. -/
inductive RuntimeError where
  | undeclaredVariable (name : String)
  | unassignedVariable (name : String)
  | undeclaredFunction (name : String)
  | nameIsFunction (name : String)
  | nameIsVariable (name : String)
  | functionRedeclared (name : String)
  /-- The accepted counts are given in words. -/
  | incorrectArity (operator expected : String) (found : Nat)
  | typeMismatch (operator expected : String) (found : Kind)
  | comparisonMismatch (left right : Kind)
  | conditionNotBoolean (construct : String) (found : Kind)
  | invalidRepeatCount (count : Number)
  | nonIntegerIndex (index : Number)
  | indexOutOfBounds (index : Number) (length : Nat)
  | unknownExpression (token : String)
deriving DecidableEq

/-- What went wrong outside the program: in its text or in its output. -/
inductive ChannelError where
  | undecodable
  | sinkFull
deriving DecidableEq, Repr

inductive Error where
  | parsing (error : SyntaxError)
  | running (error : RuntimeError)
  | returnOutsideFunction
  | channel (error : ChannelError)
deriving DecidableEq

def SyntaxError.message : SyntaxError → String
  | unexpectedEnd => "Unexpected end of input"
  | unknownStatement token => "Unknown statement type (" ++ token ++ ")"
  | unknownValue token => "Unknown value (" ++ token ++ ")"
  | malformed construct expected found =>
    "Malformed " ++ construct ++ " (expecting '" ++ expected ++ "', found '" ++ found ++ "')"
  | illegalAssignmentTarget token => "Illegal lhs of assignment statement (" ++ token ++ ")"
  | expectedOperator found =>
    "Identifier or function expected in expression (" ++ found ++ ")"
  | expectedIdentifier what found => what ++ " must be an identifier (" ++ found ++ ")"

def RuntimeError.message : RuntimeError → String
  | undeclaredVariable name => "variable " ++ name ++ " is undeclared"
  | unassignedVariable name => "variable " ++ name ++ " has no value"
  | undeclaredFunction name => "function " ++ name ++ " is not declared"
  | nameIsFunction name => "cannot assign to " ++ name ++ ", name exists as function"
  | nameIsVariable name => "cannot declare function " ++ name ++ ", name exists as variable"
  | functionRedeclared name => "function " ++ name ++ " already declared"
  | incorrectArity operator expected found =>
    "incorrect arity in " ++ operator ++ " expression (expected " ++ expected ++ ", got " ++
      toString found ++ ")"
  | typeMismatch operator expected found =>
    expected ++ " value expected in " ++ operator ++ " expression, found " ++ found.name
  | comparisonMismatch left right =>
    "type mismatch in comparison (" ++ left.name ++ " vs " ++ right.name ++ ")"
  | conditionNotBoolean construct found =>
    construct ++ " statement requires a boolean condition, found " ++ found.name
  | invalidRepeatCount count =>
    "repeat statement requires a non-negative integer, found " ++ count.text
  | nonIntegerIndex index => "index must be an integer, found " ++ index.text
  | indexOutOfBounds index length =>
    "index " ++ index.text ++ " out of bounds for length " ++ toString length
  | unknownExpression token => "unknown expression format (" ++ token ++ ")"

def ChannelError.message : ChannelError → String
  | undecodable => "stream did not contain valid UTF-8"
  | sinkFull => "sink full"

def Error.message : Error → String
  | parsing error => "SYNTAX ERROR: " ++ error.message
  | running error => "RUNTIME ERROR: " ++ error.message
  | returnOutsideFunction => "ERROR: Return statement outside of function"
  | channel error => "I/O error: " ++ error.message

end TinyScript
