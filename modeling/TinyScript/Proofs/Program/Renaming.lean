import Mathlib.Logic.Equiv.Basic
import TinyScript.Program.Tree
import TinyScript.Run.Builtin

/-!
# Renaming

To rename is to replace every identifier by another one, different ones by different ones. All other
words mean something by themselves and stay. In a tree the names of variables and of functions are
renamed alike.
-/

namespace TinyScript

/-- A permutation of the spellings that moves identifiers only. -/
structure Renaming where
  perm : Equiv.Perm String
  identifier : ∀ name, TokenKind.classify name = .identifier →
    TokenKind.classify (perm name) = .identifier
  fixes : ∀ word, TokenKind.classify word ≠ .identifier → perm word = word

namespace Renaming

instance : CoeFun Renaming fun _ => String → String :=
  ⟨fun r => r.perm⟩

/-- Exchanges two identifiers. -/
def swap {first second : String} (hfirst : TokenKind.classify first = .identifier)
    (hsecond : TokenKind.classify second = .identifier) : Renaming where
  perm := Equiv.swap first second
  identifier name hname := by
    rw [Equiv.swap_apply_def]
    split
    · exact hsecond
    · split
      · exact hfirst
      · exact hname
  fixes word hword := by
    apply Equiv.swap_apply_of_ne_of_ne
    · rintro rfl
      exact hword hfirst
    · rintro rfl
      exact hword hsecond

theorem apply_inj (r : Renaming) {name other : String} : r name = r other ↔ name = other :=
  r.perm.injective.eq_iff

theorem classify (r : Renaming) (word : String) :
    TokenKind.classify (r word) = TokenKind.classify word := by
  by_cases hword : TokenKind.classify word = .identifier
  · rw [hword, r.identifier word hword]
  · rw [r.fixes word hword]

end Renaming

variable (r : Renaming)

@[simp] theorem Renaming.spelling_builtin (builtin : Builtin) :
    r builtin.spelling = builtin.spelling :=
  r.fixes _ builtin.classify_spelling

/-- Renaming neither makes an operator nor hides one. -/
theorem Renaming.named? (spelling : String) :
    Builtin.named? (r spelling) = Builtin.named? spelling := by
  cases hnamed : Builtin.named? spelling with
  | some builtin =>
      rw [← Builtin.spelling_of_named? hnamed, r.spelling_builtin,
        Builtin.spelling_of_named? hnamed, hnamed]
  | none =>
      cases hrenamed : Builtin.named? (r spelling) with
      | none => rfl
      | some builtin =>
          have hspelling := Builtin.spelling_of_named? hrenamed
          rw [← r.spelling_builtin, r.apply_inj] at hspelling
          rw [← hspelling, r.spelling_builtin] at hrenamed
          rw [← hspelling, hrenamed] at hnamed
          cases hnamed

/-! ## Trees -/

def Token.rename (token : Token) : Token :=
  ⟨r token.spelling⟩

@[simp] theorem Token.spelling_rename (token : Token) :
    (token.rename r).spelling = r token.spelling := rfl

@[simp] theorem Token.kind_rename (token : Token) : (token.rename r).kind = token.kind :=
  r.classify token.spelling

theorem Token.rename_of_kind {token : Token} (h : token.kind ≠ .identifier) :
    token.rename r = token := by
  rw [rename, r.fixes token.spelling h]

mutual

def Expr.rename : Expr → Expr
  | .simple token => .simple (token.rename r)
  | .list elements => .list (Expr.renameAll elements)
  | .call operator arguments => .call (operator.rename r) (Expr.renameAll arguments)

def Expr.renameAll : List Expr → List Expr
  | [] => []
  | expr :: exprs => expr.rename :: Expr.renameAll exprs

end

mutual

def Statement.rename : Statement → Statement
  | .assign target value => .assign (target.rename r) (value.rename r)
  | .block body => .block (Statement.renameAll body)
  | .ifElse condition thenBlock elseBlock =>
    .ifElse (condition.rename r) (Statement.renameAll thenBlock) (Statement.renameAll elseBlock)
  | .while condition body => .while (condition.rename r) (Statement.renameAll body)
  | .repeat count body => .repeat (count.rename r) (Statement.renameAll body)
  | .func name parameters body =>
    .func (name.rename r) (parameters.map (Token.rename r)) (Statement.renameAll body)
  | .return value => .return (value.rename r)
  | .print value => .print (value.rename r)

def Statement.renameAll : List Statement → List Statement
  | [] => []
  | statement :: statements => statement.rename :: Statement.renameAll statements

end

def FunctionDecl.rename (decl : FunctionDecl) : FunctionDecl :=
  ⟨decl.name.rename r, decl.parameters.map (Token.rename r), Statement.renameAll r decl.body⟩

theorem Expr.renameAll_eq_map (exprs : List Expr) :
    Expr.renameAll r exprs = exprs.map (Expr.rename r) := by
  induction exprs with
  | nil => rfl
  | cons expr exprs ih => rw [renameAll, ih, List.map_cons]

theorem Statement.renameAll_eq_map (statements : List Statement) :
    Statement.renameAll r statements = statements.map (Statement.rename r) := by
  induction statements with
  | nil => rfl
  | cons statement statements ih => rw [renameAll, ih, List.map_cons]

/-! ## Errors -/

/-- The error with its names renamed. The operator that got a value of the wrong kind has none. -/
def RuntimeError.rename : RuntimeError → RuntimeError
  | .undeclaredVariable name => .undeclaredVariable (r name)
  | .unassignedVariable name => .unassignedVariable (r name)
  | .undeclaredFunction name => .undeclaredFunction (r name)
  | .nameIsFunction name => .nameIsFunction (r name)
  | .nameIsVariable name => .nameIsVariable (r name)
  | .functionRedeclared name => .functionRedeclared (r name)
  | .incorrectArity operator expected found => .incorrectArity (r operator) expected found
  | .unknownExpression token => .unknownExpression (r token)
  | other => other

def Error.rename : Error → Error
  | .running error => .running (error.rename r)
  | other => other

end TinyScript
