import TinyScript.Run.Builtin
import TinyScript.Value.Literal

/-!
# Evaluation

Expressions evaluate to values and statements are executed for their effects. Loops and recursive
calls may go on forever, so both take a bound: on the depth of evaluations within each other and on
the rounds of a loop. What ends within a bound ends in the same way within every larger one.
-/

namespace TinyScript

/-- Evaluates an expression of one token. -/
def evaluateSimple (token : Token) : Action Value :=
  if token.kind = .identifier then Action.lookup token.spelling
  else match Value.ofLiteral? token with
    | some value => pure value
    | none => .failRunning (.unknownExpression token.spelling)

/-- Evaluates from left to right. -/
def evaluateAll (evaluate : Expr → Action Value) : List Expr → Action (List Value)
  | [] => return []
  | expr :: exprs => do
    let value ← evaluate expr
    return value :: (← evaluateAll evaluate exprs)

/-- Executes up to the first statement that returns. -/
def executeAll (execute : Statement → Action Flow) : List Statement → Action Flow
  | [] => return .completed
  | statement :: statements => Flow.andThen (execute statement) (executeAll execute statements)

/-- Executes the statements of a block in a scope of their own. -/
def executeBlock (execute : Statement → Action Flow) (block : Block) : Action Flow :=
  Action.inScope Memory.beginNested (executeAll execute block)

/-- Declares each parameter with its value. -/
def bindParameters : List Token → List Value → Action Unit
  | parameter :: parameters, value :: values => do
    Action.declare parameter.spelling
    Action.store parameter.spelling value
    bindParameters parameters values
  | _, _ => return

/-- Runs the body of a function on arguments. A body that does not return gives true. -/
def applyFunction (execute : Statement → Action Flow) (decl : FunctionDecl)
    (arguments : List Value) : Action Value :=
  Action.inScope Memory.beginFunction do
    bindParameters decl.parameters arguments
    match ← executeBlock execute decl.body with
    | .returning value => return value
    | .completed => return .boolean true

/-- Calls a declared function. The arguments are evaluated in the scope of the caller. -/
def callFunction (evaluate : Expr → Action Value) (execute : Statement → Action Flow)
    (name : String) (arguments : List Expr) : Action Value := do
  match (← Action.getContext).functions.find? name with
  | none => .failRunning (.undeclaredFunction name)
  | some decl =>
    if decl.parameters.length = arguments.length then
      applyFunction execute decl (← evaluateAll evaluate arguments)
    else
      .failRunning (.incorrectArity name (toString decl.parameters.length) arguments.length)

/-- Evaluates a condition, which has to be boolean. -/
def evaluateCondition (evaluate : Expr → Action Value) (construct : String) (condition : Expr) :
    Action Bool := do
  match ← evaluate condition with
  | .boolean b => return b
  | other => .failRunning (.conditionNotBoolean construct other.kind)

/-- Gives a variable a value. A name that is not visible is declared first, before the value is
computed. -/
def assign (evaluate : Expr → Action Value) (name : String) (expr : Expr) : Action Flow := do
  let context ← Action.getContext
  if context.functions.contains name then
    .failRunning (.nameIsFunction name)
  else
    if !context.memory.isDeclared name then
      Action.declare name
    Action.store name (← evaluate expr)
    return .completed

/-- Declares a function, whose name is taken as a variable as well. -/
def declareFunction (decl : FunctionDecl) : Action Flow := do
  let name := decl.name.spelling
  let context ← Action.getContext
  if context.memory.isDeclared name then
    .failRunning (.nameIsVariable name)
  else if context.functions.contains name then
    .failRunning (.functionRedeclared name)
  else
    Action.register decl
    Action.declare name
    Action.store name Value.functionMarker
    return .completed

/-- The greatest number of rounds of a counted loop. -/
def maxRounds : Nat := Nat.pow 2 64 - 1

/-- The rounds that a count asks for. -/
def repeatRounds : Value → Action Nat
  | .number x =>
    match x.count with
    | .integer (.ofNat n) => pure (min n maxRounds)
    | _ => .failRunning (.invalidRepeatCount x)
  | other => Builtin.wrongKind "repeat" "number" other

mutual

def evaluate : Nat → Expr → Action Value
  | 0, _ => Action.unfinished
  | _ + 1, .simple token => evaluateSimple token
  | bound + 1, .list elements => return .list (← evaluateAll (evaluate bound) elements)
  | bound + 1, .call operator arguments =>
    match Builtin.named? operator.spelling with
    | some builtin => builtin.apply (evaluate bound) arguments
    | none =>
      if operator.kind = .identifier then
        callFunction (evaluate bound) (execute bound) operator.spelling arguments
      else .failRunning (.undeclaredFunction operator.spelling)

def execute : Nat → Statement → Action Flow
  | 0, _ => Action.unfinished
  | bound + 1, .assign target value => assign (evaluate bound) target.spelling value
  | bound + 1, .block body => executeBlock (execute bound) body
  | bound + 1, .ifElse condition thenBlock elseBlock => do
    if ← evaluateCondition (evaluate bound) "if" condition then
      executeBlock (execute bound) thenBlock
    else executeBlock (execute bound) elseBlock
  | bound + 1, .while condition body =>
    Flow.whileTrue (evaluateCondition (evaluate bound) "while" condition)
      (executeBlock (execute bound) body) bound
  | bound + 1, .repeat count body => do
    let rounds ← repeatRounds (← evaluate bound count)
    Flow.times (executeBlock (execute bound) body) rounds
  | _ + 1, .func name parameters body => declareFunction ⟨name, parameters, body⟩
  | bound + 1, .return value => return .returning (← evaluate bound value)
  | bound + 1, .print value => do
    Action.printLine (← evaluate bound value).render
    return .completed

end

/-- Executes a statement that stands outside all functions, where nothing can be returned. -/
def executeTopLevel (bound : Nat) (statement : Statement) : Action Unit := do
  match ← execute bound statement with
  | .completed => return
  | .returning _ => .fail .returnOutsideFunction

end TinyScript
