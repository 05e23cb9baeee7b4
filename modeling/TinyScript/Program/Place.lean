import TinyScript.Error
import TinyScript.Program.Tree

/-!
# Parser states

A parse keeps the part of the tree that surrounds the next token. A place is a tree with a hole:
what was read before the hole, and, inside out, everything that is still open around it. Filling the
hole of a place either completes the tree that was asked for or leads to the state that waits for
what comes next. One token leads from each state to at most one other, so nothing is ever read twice
and no token is looked at before it is needed.
-/

namespace TinyScript

/-- What a parse is asked for. -/
inductive Goal where
  | statement | expression | block
deriving DecidableEq, Repr

/-- The trees of a goal. -/
abbrev Goal.Tree : Goal → Type
  | statement => Statement
  | expression => Expr
  | block => Block

mutual

/-- Where an expression is missing. What was read before it is listed last first. -/
inductive ExprPlace : Goal → Type where
  | whole : ExprPlace .expression
  | element {goal} (place : ExprPlace goal) (before : List Expr) : ExprPlace goal
  | argument {goal} (place : ExprPlace goal) (operator : Token) (before : List Expr) :
      ExprPlace goal
  | assigned {goal} (place : StatementPlace goal) (target : Token) : ExprPlace goal
  | printed {goal} (place : StatementPlace goal) : ExprPlace goal
  | returned {goal} (place : StatementPlace goal) : ExprPlace goal
  | ifCondition {goal} (place : StatementPlace goal) : ExprPlace goal
  | whileCondition {goal} (place : StatementPlace goal) : ExprPlace goal
  | repeatCount {goal} (place : StatementPlace goal) : ExprPlace goal

/-- Where a block is missing. -/
inductive BlockPlace : Goal → Type where
  | whole : BlockPlace .block
  | statement {goal} (place : StatementPlace goal) : BlockPlace goal
  | thenBranch {goal} (place : StatementPlace goal) (condition : Expr) : BlockPlace goal
  | elseBranch {goal} (place : StatementPlace goal) (condition : Expr) (thenBlock : Block) :
      BlockPlace goal
  | whileBody {goal} (place : StatementPlace goal) (condition : Expr) : BlockPlace goal
  | repeatBody {goal} (place : StatementPlace goal) (count : Expr) : BlockPlace goal
  | functionBody {goal} (place : StatementPlace goal) (name : Token) (parameters : List Token) :
      BlockPlace goal

/-- Where a statement is missing. -/
inductive StatementPlace : Goal → Type where
  | whole : StatementPlace .statement
  | member {goal} (place : BlockPlace goal) (before : List Statement) : StatementPlace goal

end

/-- What the next token must begin or be. -/
inductive ParseState (goal : Goal) where
  /-- An expression, or the bracket that closes the list or the call around it. -/
  | expression (place : ExprPlace goal)
  /-- The head of a call. -/
  | operator (place : ExprPlace goal)
  /-- A statement, or the brace that closes the block around it. -/
  | statement (place : StatementPlace goal)
  /-- The opening brace of a block. -/
  | brace (place : BlockPlace goal)
  | elseWord (place : StatementPlace goal) (condition : Expr) (thenBlock : Block)
  | equalsSign (place : StatementPlace goal) (target : Token)
  | functionName (place : StatementPlace goal)
  /-- The parenthesis before the parameters. -/
  | parameterList (place : StatementPlace goal) (name : Token)
  /-- A parameter, or the parenthesis behind the parameters. -/
  | parameter (place : StatementPlace goal) (name : Token) (before : List Token)

/-- What a token does to a parse. -/
inductive Progress (goal : Goal) where
  | more (state : ParseState goal)
  | complete (tree : goal.Tree)
  /-- The token is taken and found to be wrong. -/
  | reject (error : SyntaxError)
  /-- The token is found to be wrong and is not taken. -/
  | refuse (error : SyntaxError)

variable {goal : Goal}

/-! ## Filling a place -/

def StatementPlace.fill (statement : Statement) : StatementPlace goal → Progress goal
  | .whole => .complete statement
  | .member place before => .more (.statement (.member place (statement :: before)))

def ExprPlace.fill (expr : Expr) : ExprPlace goal → Progress goal
  | .whole => .complete expr
  | .element place before => .more (.expression (.element place (expr :: before)))
  | .argument place operator before =>
    .more (.expression (.argument place operator (expr :: before)))
  | .assigned place target => place.fill (.assign target expr)
  | .printed place => place.fill (.print expr)
  | .returned place => place.fill (.return expr)
  | .ifCondition place => .more (.brace (.thenBranch place expr))
  | .whileCondition place => .more (.brace (.whileBody place expr))
  | .repeatCount place => .more (.brace (.repeatBody place expr))

def BlockPlace.fill (block : Block) : BlockPlace goal → Progress goal
  | .whole => .complete block
  | .statement place => place.fill (.block block)
  | .thenBranch place condition => .more (.elseWord place condition block)
  | .elseBranch place condition thenBlock => place.fill (.ifElse condition thenBlock block)
  | .whileBody place condition => place.fill (.while condition block)
  | .repeatBody place count => place.fill (.repeat count block)
  | .functionBody place name parameters => place.fill (.func name parameters block)

/-! ## Taking a token -/

/-- Begins an expression with the token. -/
def ExprPlace.begin (place : ExprPlace goal) (token : Token) : Progress goal :=
  if token.spelling = "(" then .more (.operator place)
  else if token.spelling = "[" then .more (.expression (.element place []))
  else if token.kind = .identifier ∨ token.kind.isLiteral then place.fill (.simple token)
  else .reject (.unknownValue token.spelling)

/-- Begins an expression, or closes the list or the call that it would be part of. -/
def ExprPlace.step (token : Token) : ExprPlace goal → Progress goal
  | .element place before =>
    if token.spelling = "]" then place.fill (.list before.reverse)
    else begin (.element place before) token
  | .argument place operator before =>
    if token.spelling = ")" then place.fill (.call operator before.reverse)
    else begin (.argument place operator before) token
  | place => place.begin token

/-- Begins an assignment to the token, whatever announced it. -/
def StatementPlace.beginAssignment (place : StatementPlace goal) (target : Token) :
    Progress goal :=
  if target.kind = .identifier then .more (.equalsSign place target)
  else .reject (.illegalAssignmentTarget target.spelling)

theorem StatementPlace.beginAssignment_of_identifier (place : StatementPlace goal) {target : Token}
    (h : target.kind = .identifier) :
    place.beginAssignment target = .more (.equalsSign place target) :=
  if_pos h

/-- Begins the statement that the token announces. A word that announces none is not taken. -/
def StatementPlace.begin (place : StatementPlace goal) (token : Token) : Progress goal :=
  match token.spelling with
  | "print" => .more (.expression (.printed place))
  | "if" => .more (.expression (.ifCondition place))
  | "while" => .more (.expression (.whileCondition place))
  | "repeat" => .more (.expression (.repeatCount place))
  | "\x7b" => .more (.statement (.member (.statement place) []))
  | "func" => .more (.functionName place)
  | "return" => .more (.expression (.returned place))
  | spelling =>
    if token.kind = .identifier then place.beginAssignment token
    else .refuse (.unknownStatement spelling)

/-- Begins a statement, or closes the block that it would be part of. -/
def StatementPlace.step (token : Token) : StatementPlace goal → Progress goal
  | .whole => begin .whole token
  | .member place before =>
    if token.spelling = "\x7d" then place.fill before.reverse
    else begin (.member place before) token

/-- Goes on if the token is the one word that may stand here. -/
def expectWord (construct expected : String) (token : Token) (state : ParseState goal) :
    Progress goal :=
  if token.spelling = expected then .more state
  else .reject (.malformed construct expected token.spelling)

/-- Goes on if the token may name something. -/
def expectName (what : String) (token : Token) (state : ParseState goal) : Progress goal :=
  if token.kind = .identifier then .more state
  else .reject (.expectedIdentifier what token.spelling)

def ParseState.step (token : Token) : ParseState goal → Progress goal
  | .expression place => place.step token
  | .operator place =>
    if token.kind.isCallable then .more (.expression (.argument place token []))
    else .reject (.expectedOperator token.spelling)
  | .statement place => place.step token
  | .brace place =>
    expectWord "compound statement" "\x7b" token (.statement (.member place []))
  | .elseWord place condition thenBlock =>
    expectWord "if statement" "else" token (.brace (.elseBranch place condition thenBlock))
  | .equalsSign place target =>
    expectWord "assignment statement" "=" token (.expression (.assigned place target))
  | .functionName place => expectName "Function name" token (.parameterList place token)
  | .parameterList place name =>
    expectWord "function declaration" "(" token (.parameter place name [])
  | .parameter place name before =>
    if token.spelling = ")" then .more (.brace (.functionBody place name before.reverse))
    else expectName "Function parameter" token (.parameter place name (token :: before))

end TinyScript
