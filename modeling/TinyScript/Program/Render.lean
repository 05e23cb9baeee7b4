import TinyScript.Text.Lines
import TinyScript.Program.Tree

/-!
# Rendering

The text of a tree. Tokens of one expression stand on one line, each statement of a block starts a
line, and all lines of a block are indented by two places more than its braces.
-/

namespace TinyScript

mutual

def Expr.render : Expr → String
  | .simple token => token.spelling
  | .list elements => "[" ++ " ".intercalate (Expr.renderAll elements) ++ "]"
  | .call operator arguments =>
    "(" ++ " ".intercalate (operator.spelling :: Expr.renderAll arguments) ++ ")"

def Expr.renderAll : List Expr → List String
  | [] => []
  | expr :: exprs => expr.render :: Expr.renderAll exprs

end

/-- A block whose statements have been rendered. -/
def renderBraces (statements : List String) : String :=
  "\x7b\n" ++ String.join (statements.map Text.indent) ++ "\x7d"

mutual

def Statement.render : Statement → String
  | .assign target value => target.spelling ++ " = " ++ value.render
  | .block body => renderBraces (Statement.renderAll body)
  | .ifElse condition thenBlock elseBlock =>
    "if " ++ condition.render ++ " " ++ renderBraces (Statement.renderAll thenBlock) ++
      "\nelse " ++ renderBraces (Statement.renderAll elseBlock)
  | .while condition body =>
    "while " ++ condition.render ++ " " ++ renderBraces (Statement.renderAll body)
  | .repeat count body =>
    "repeat " ++ count.render ++ " " ++ renderBraces (Statement.renderAll body)
  | .func name parameters body =>
    "func " ++ name.spelling ++ "(" ++ " ".intercalate (parameters.map Token.spelling) ++ ") " ++
      renderBraces (Statement.renderAll body)
  | .return value => "return " ++ value.render
  | .print value => "print " ++ value.render

def Statement.renderAll : List Statement → List String
  | [] => []
  | statement :: statements => statement.render :: Statement.renderAll statements

end

def Block.render (block : Block) : String :=
  renderBraces (Statement.renderAll block)

def FunctionDecl.render (decl : FunctionDecl) : String :=
  decl.toStatement.render

end TinyScript
