import TinyScript.Number.Numeral

/-!
# Lexical grammar

Each spelling has one kind. The fixed spellings come first, so a reserved word is no identifier, and
any text that no rule covers is of kind `unknown`.
-/

namespace TinyScript

/-- The lexical category of a spelling. -/
inductive TokenKind where
  | delimiter | keyword | identifier
  | boolOperator | mathOperator | sequenceOperator
  | numberLiteral | boolLiteral | charLiteral | stringLiteral
  | unknown
deriving DecidableEq, Repr

namespace TokenKind

def delimiters : List String := ["\x7b", "\x7d", "(", ")", "[", "]"]

def keywords : List String :=
  ["=", "print", "if", "else", "while", "repeat", "func", "return"]

def boolOperators : List String :=
  ["==", "!=", ">", ">=", "<", "<=", "and", "or", "not"]

def mathOperators : List String := ["+", "*", "/"]

def sequenceOperators : List String := ["len", "get", "cat", "str"]

def boolLiterals : List String := ["true", "false"]

/-- An ASCII letter and then ASCII letters and digits. -/
def isIdentifier : List Char → Bool
  | [] => false
  | first :: rest => first.isAlpha && rest.all Char.isAlphanum

def isNumber (chars : List Char) : Bool :=
  (Number.Numeral.read? chars).isSome

/-- Two double quotes around characters that are no double quotes. -/
def isString : List Char → Bool
  | '"' :: rest => rest.dropWhile (· ≠ '"') = ['"']
  | _ => false

/-- Two single quotes around one character, which is no line feed but may be a quote. -/
def isCharacter : List Char → Bool
  | ['\'', c, '\''] => c ≠ '\n'
  | _ => false

def classify (spelling : String) : TokenKind :=
  if spelling ∈ delimiters then .delimiter
  else if spelling ∈ keywords then .keyword
  else if spelling ∈ boolOperators then .boolOperator
  else if spelling ∈ mathOperators then .mathOperator
  else if spelling ∈ sequenceOperators then .sequenceOperator
  else if spelling ∈ boolLiterals then .boolLiteral
  else if isNumber spelling.toList then .numberLiteral
  else if isIdentifier spelling.toList then .identifier
  else if isString spelling.toList then .stringLiteral
  else if isCharacter spelling.toList then .charLiteral
  else .unknown

def isLiteral : TokenKind → Bool
  | numberLiteral | boolLiteral | charLiteral | stringLiteral => true
  | _ => false

/-- The kinds that may head a call. -/
def isCallable : TokenKind → Bool
  | identifier | mathOperator | boolOperator | sequenceOperator => true
  | _ => false

end TokenKind

/-- A word of a program. Its kind follows from its spelling, so equal spellings are equal tokens. -/
structure Token where
  spelling : String
deriving DecidableEq, Repr

def Token.kind (token : Token) : TokenKind :=
  .classify token.spelling

end TinyScript
