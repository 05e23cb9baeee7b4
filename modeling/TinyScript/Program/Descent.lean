import TinyScript.Program.Parser

/-!
# Recursive descent

The grammar as one function for each construct, which calls those for its parts. The functions take
a bound on the depth of the calls, and it suffices if it exceeds the size of the stream. They read
what a parse reads that keeps the open constructs in a place instead.
-/

namespace TinyScript

/-- Takes tokens from a stream, and fails or has a result. -/
def Parser (α : Type) : Type := TokenStream → Parsed α

namespace Parser

variable {α β : Type}

protected def pure (result : α) : Parser α := fun stream => (.ok result, stream)

protected def bind (parser : Parser α) (next : α → Parser β) : Parser β := fun stream =>
  match parser stream with
  | (.ok result, rest) => next result rest
  | (.error error, rest) => (.error error, rest)

instance : Monad Parser where
  pure := Parser.pure
  bind := Parser.bind

def fail (error : SyntaxError) : Parser α := fun stream => (.error (.parsing error), stream)

/-! ## Single tokens -/

/-- The next token, which is not taken. -/
def lookahead : Parser Token := fun stream =>
  match stream.lookahead with
  | (.ok token, rest) => (.ok token, rest)
  | (.error error, rest) => (.error error.toError, rest)

/-- Takes the next token. -/
def next : Parser Token := fun stream =>
  match stream.next with
  | (.ok token, rest) => (.ok token, rest)
  | (.error error, rest) => (.error error.toError, rest)

/-- Takes the one word that may stand here. -/
def expect (spelling construct : String) : Parser Unit := do
  let token ← next
  if token.spelling = spelling then return ()
  else fail (.malformed construct spelling token.spelling)

/-- Takes a token that may name something. -/
def expectIdentifier (what : String) : Parser Token := do
  let token ← next
  if token.kind = .identifier then return token
  else fail (.expectedIdentifier what token.spelling)

/-! ## Constructs -/

/-- Where the bound on the depth is too small. -/
def tooDeep : Parser α := fail .unexpectedEnd

/-- Parses items up to the word that closes them, which is taken. -/
def itemsUntil (closing : String) (item : Parser α) : Nat → Parser (List α)
  | 0 => tooDeep
  | bound + 1 => do
    let token ← lookahead
    if token.spelling = closing then
      let _ ← next
      return []
    else
      let first ← item
      let rest ← itemsUntil closing item bound
      return first :: rest

def expression : Nat → Parser Expr
  | 0 => tooDeep
  | bound + 1 => do
    let token ← next
    if token.spelling = "(" then
      let operator ← next
      if operator.kind.isCallable then
        let arguments ← itemsUntil ")" (expression bound) bound
        return .call operator arguments
      else fail (.expectedOperator operator.spelling)
    else if token.spelling = "[" then
      let elements ← itemsUntil "]" (expression bound) bound
      return .list elements
    else if token.kind = .identifier ∨ token.kind.isLiteral then return .simple token
    else fail (.unknownValue token.spelling)

section

variable (statement : Parser Statement) (bound : Nat)

def compound : Parser Block := do
  expect "\x7b" "compound statement"
  itemsUntil "\x7d" statement bound

def functionDecl : Parser FunctionDecl := do
  expect "func" "function declaration"
  let name ← expectIdentifier "Function name"
  expect "(" "function declaration"
  let parameters ← itemsUntil ")" (expectIdentifier "Function parameter") bound
  let body ← compound statement bound
  return ⟨name, parameters, body⟩

end

def assignment (bound : Nat) : Parser Statement := do
  let target ← next
  if target.kind = .identifier then
    expect "=" "assignment statement"
    let value ← expression bound
    return .assign target value
  else fail (.illegalAssignmentTarget target.spelling)

/-- Parses the statement that the next token announces. -/
def statement : Nat → Parser Statement
  | 0 => tooDeep
  | bound + 1 => do
    let first ← lookahead
    match first.spelling with
    | "print" =>
      let _ ← next
      let value ← expression bound
      return .print value
    | "if" =>
      let _ ← next
      let condition ← expression bound
      let thenBlock ← compound (statement bound) bound
      expect "else" "if statement"
      let elseBlock ← compound (statement bound) bound
      return .ifElse condition thenBlock elseBlock
    | "while" =>
      let _ ← next
      let condition ← expression bound
      let body ← compound (statement bound) bound
      return .while condition body
    | "repeat" =>
      let _ ← next
      let count ← expression bound
      let body ← compound (statement bound) bound
      return .repeat count body
    | "\x7b" =>
      let body ← compound (statement bound) bound
      return .block body
    | "func" =>
      let decl ← functionDecl (statement bound) bound
      return decl.toStatement
    | "return" =>
      let _ ← next
      let value ← expression bound
      return .return value
    | spelling =>
      if first.kind = .identifier then assignment bound
      else fail (.unknownStatement spelling)

end Parser

end TinyScript
