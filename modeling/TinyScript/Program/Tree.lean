import TinyScript.Token.Kind

/-!
# Program trees

Expressions and statements as they are after parsing and before running. Tokens keep their spelling,
so a tree built by hand may hold words that no parsed tree holds.
-/

namespace TinyScript

inductive Expr where
  /-- A literal or an identifier. -/
  | simple (token : Token)
  | list (elements : List Expr)
  /-- An operator or a function that is applied to arguments. -/
  | call (operator : Token) (arguments : List Expr)
deriving Repr, Inhabited

inductive Statement where
  | assign (target : Token) (value : Expr)
  | block (body : List Statement)
  | ifElse (condition : Expr) (thenBlock elseBlock : List Statement)
  | while (condition : Expr) (body : List Statement)
  | repeat (count : Expr) (body : List Statement)
  | func (name : Token) (parameters : List Token) (body : List Statement)
  | return (value : Expr)
  | print (value : Expr)
deriving Repr, Inhabited

/-- The statements between a pair of braces. -/
abbrev Block := List Statement

/-- What a function declaration declares. -/
structure FunctionDecl where
  name : Token
  parameters : List Token
  body : Block
deriving Repr

/-- The statement that makes the declaration. -/
def FunctionDecl.toStatement (decl : FunctionDecl) : Statement :=
  .func decl.name decl.parameters decl.body

/-! ## Equality -/

mutual

def Expr.beq : Expr → Expr → Bool
  | .simple s, .simple t => s = t
  | .list es, .list fs => Expr.beqAll es fs
  | .call o es, .call p fs => decide (o = p) && Expr.beqAll es fs
  | _, _ => false

def Expr.beqAll : List Expr → List Expr → Bool
  | [], [] => true
  | e :: es, f :: fs => Expr.beq e f && Expr.beqAll es fs
  | _, _ => false

end

mutual

theorem Expr.beq_iff : ∀ e f : Expr, Expr.beq e f = true ↔ e = f
  | .simple s, f => by cases f <;> simp [Expr.beq]
  | .list es, f => by cases f <;> simp [Expr.beq, Expr.beqAll_iff]
  | .call o es, f => by cases f <;> simp [Expr.beq, Expr.beqAll_iff]

theorem Expr.beqAll_iff : ∀ es fs : List Expr, Expr.beqAll es fs = true ↔ es = fs
  | [], fs => by cases fs <;> simp [Expr.beqAll]
  | e :: es, fs => by cases fs <;> simp [Expr.beqAll, Expr.beq_iff, Expr.beqAll_iff]

end

instance : DecidableEq Expr := fun e f => decidable_of_iff _ (Expr.beq_iff e f)

mutual

def Statement.beq : Statement → Statement → Bool
  | .assign t v, .assign u w => decide (t = u) && decide (v = w)
  | .block b, .block c => Statement.beqAll b c
  | .ifElse c s t, .ifElse d u v => decide (c = d) && Statement.beqAll s u && Statement.beqAll t v
  | .while c b, .while d e => decide (c = d) && Statement.beqAll b e
  | .repeat c b, .repeat d e => decide (c = d) && Statement.beqAll b e
  | .func n p b, .func m q c => decide (n = m) && decide (p = q) && Statement.beqAll b c
  | .return v, .return w => v = w
  | .print v, .print w => v = w
  | _, _ => false

def Statement.beqAll : List Statement → List Statement → Bool
  | [], [] => true
  | s :: ss, t :: ts => Statement.beq s t && Statement.beqAll ss ts
  | _, _ => false

end

mutual

theorem Statement.beq_iff : ∀ s t : Statement, Statement.beq s t = true ↔ s = t
  | .assign u v, t => by cases t <;> simp [Statement.beq]
  | .block b, t => by cases t <;> simp [Statement.beq, Statement.beqAll_iff]
  | .ifElse c b d, t => by cases t <;> simp [Statement.beq, Statement.beqAll_iff, and_assoc]
  | .while c b, t => by cases t <;> simp [Statement.beq, Statement.beqAll_iff]
  | .repeat c b, t => by cases t <;> simp [Statement.beq, Statement.beqAll_iff]
  | .func n p b, t => by cases t <;> simp [Statement.beq, Statement.beqAll_iff, and_assoc]
  | .return v, t => by cases t <;> simp [Statement.beq]
  | .print v, t => by cases t <;> simp [Statement.beq]

theorem Statement.beqAll_iff : ∀ ss ts : List Statement, Statement.beqAll ss ts = true ↔ ss = ts
  | [], ts => by cases ts <;> simp [Statement.beqAll]
  | s :: ss, ts => by cases ts <;> simp [Statement.beqAll, Statement.beq_iff, Statement.beqAll_iff]

end

instance : DecidableEq Statement := fun s t => decidable_of_iff _ (Statement.beq_iff s t)

instance : DecidableEq FunctionDecl := fun d e =>
  decidable_of_iff (d.toStatement = e.toStatement) <| by
    cases d
    cases e
    simp [FunctionDecl.toStatement]

end TinyScript
