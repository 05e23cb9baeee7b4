import TinyScript.Program.Tree

/-!
# Names in a program

The names that a tree mentions where it stands. The body of a function is left out: it sees none of
the variables around the declaration.
-/

namespace TinyScript

mutual

/-- The variables that an expression reads. The head of a call is none of them. -/
def Expr.reads : Expr → List String
  | .simple token => if token.kind = .identifier then [token.spelling] else []
  | .list elements => Expr.readsAll elements
  | .call _ arguments => Expr.readsAll arguments

def Expr.readsAll : List Expr → List String
  | [] => []
  | expr :: exprs => expr.reads ++ Expr.readsAll exprs

end

mutual

/-- The functions that an expression calls by name. Operators are none of them. -/
def Expr.calls : Expr → List String
  | .simple _ => []
  | .list elements => Expr.callsAll elements
  | .call operator arguments =>
    (if operator.kind = .identifier then [operator.spelling] else []) ++ Expr.callsAll arguments

def Expr.callsAll : List Expr → List String
  | [] => []
  | expr :: exprs => expr.calls ++ Expr.callsAll exprs

end

mutual

def Statement.reads : Statement → List String
  | .assign _ value => value.reads
  | .block body => Statement.readsAll body
  | .ifElse condition thenBlock elseBlock =>
    condition.reads ++ Statement.readsAll thenBlock ++ Statement.readsAll elseBlock
  | .while condition body => condition.reads ++ Statement.readsAll body
  | .repeat count body => count.reads ++ Statement.readsAll body
  | .func _ _ _ => []
  | .return value => value.reads
  | .print value => value.reads

def Statement.readsAll : List Statement → List String
  | [] => []
  | statement :: statements => statement.reads ++ Statement.readsAll statements

end

mutual

/-- The targets of assignments and the names of declared functions. -/
def Statement.writes : Statement → List String
  | .assign target _ => [target.spelling]
  | .block body => Statement.writesAll body
  | .ifElse _ thenBlock elseBlock =>
    Statement.writesAll thenBlock ++ Statement.writesAll elseBlock
  | .while _ body => Statement.writesAll body
  | .repeat _ body => Statement.writesAll body
  | .func name _ _ => [name.spelling]
  | .return _ => []
  | .print _ => []

def Statement.writesAll : List Statement → List String
  | [] => []
  | statement :: statements => statement.writes ++ Statement.writesAll statements

end

mutual

/-- The functions that a statement declares where it stands. -/
def Statement.declares : Statement → List String
  | .assign _ _ => []
  | .block body => Statement.declaresAll body
  | .ifElse _ thenBlock elseBlock =>
    Statement.declaresAll thenBlock ++ Statement.declaresAll elseBlock
  | .while _ body => Statement.declaresAll body
  | .repeat _ body => Statement.declaresAll body
  | .func name _ _ => [name.spelling]
  | .return _ => []
  | .print _ => []

def Statement.declaresAll : List Statement → List String
  | [] => []
  | statement :: statements => statement.declares ++ Statement.declaresAll statements

end

mutual

/-- The functions that are declared in the bodies of functions, at any depth. -/
def Statement.inner : Statement → List String
  | .assign _ _ => []
  | .block body => Statement.innerAll body
  | .ifElse _ thenBlock elseBlock =>
    Statement.innerAll thenBlock ++ Statement.innerAll elseBlock
  | .while _ body => Statement.innerAll body
  | .repeat _ body => Statement.innerAll body
  | .func _ _ body => Statement.declaresAll body ++ Statement.innerAll body
  | .return _ => []
  | .print _ => []

def Statement.innerAll : List Statement → List String
  | [] => []
  | statement :: statements => statement.inner ++ Statement.innerAll statements

end

/-- All names that a statement mentions where it stands. -/
def Statement.names (statement : Statement) : List String :=
  statement.reads ++ statement.writes

/-- The name that the statement itself may declare in the scope it stands in. -/
def Statement.introduces : Statement → Option String
  | .assign target _ => some target.spelling
  | .func name _ _ => some name.spelling
  | _ => none

theorem Statement.mem_writes_of_introduces {statement : Statement} {name : String}
    (h : statement.introduces = some name) : name ∈ statement.writes := by
  cases statement with
  | assign target value => simpa [writes, introduces, eq_comm] using h
  | func declared parameters body => simpa [writes, introduces, eq_comm] using h
  | _ => cases h

/-! ## Parts of trees -/

/-- What is evaluated within the expression. -/
def Expr.parts : Expr → List Expr
  | .simple _ => []
  | .list elements => elements
  | .call _ arguments => arguments

/-- What the statement itself evaluates. -/
def Statement.exprs : Statement → List Expr
  | .assign _ value => [value]
  | .block _ => []
  | .ifElse condition _ _ => [condition]
  | .while condition _ => [condition]
  | .repeat count _ => [count]
  | .func _ _ _ => []
  | .return value => [value]
  | .print value => [value]

/-- The blocks that the statement executes where it stands. -/
def Statement.blocks : Statement → List Block
  | .block body => [body]
  | .ifElse _ thenBlock elseBlock => [thenBlock, elseBlock]
  | .while _ body => [body]
  | .repeat _ body => [body]
  | _ => []

/-! ## What is collected from the parts -/

section

variable {Part Item : Type} {items : Part → List Item} {itemsAll : List Part → List Item}

/-- What is collected part by part. -/
theorem collected_eq_flatMap (hnil : itemsAll [] = [])
    (hcons : ∀ part parts, itemsAll (part :: parts) = items part ++ itemsAll parts)
    (parts : List Part) : itemsAll parts = parts.flatMap items := by
  induction parts with
  | nil => exact hnil
  | cons part parts ih => rw [hcons, ih, List.flatMap_cons]

theorem subset_of_flatMap {parts : List Part} {whole : List Item}
    (hall : parts.flatMap items ⊆ whole) {part : Part} (h : part ∈ parts) : items part ⊆ whole :=
  fun _ hitem => hall (List.mem_flatMap.2 ⟨part, h, hitem⟩)

theorem collected_subset (hnil : itemsAll [] = [])
    (hcons : ∀ part parts, itemsAll (part :: parts) = items part ++ itemsAll parts)
    {part : Part} {parts : List Part} (h : part ∈ parts) : items part ⊆ itemsAll parts :=
  subset_of_flatMap (collected_eq_flatMap hnil hcons parts ▸ List.Subset.refl _) h

end

theorem Expr.reads_subset_all {expr : Expr} {exprs : List Expr} (h : expr ∈ exprs) :
    expr.reads ⊆ Expr.readsAll exprs :=
  collected_subset rfl (fun _ _ => rfl) h

theorem Expr.reads_of_part {expr part : Expr} (h : part ∈ expr.parts) :
    part.reads ⊆ expr.reads := by
  cases expr with
  | simple token => cases h
  | list elements => exact reads_subset_all h
  | call operator arguments => exact reads_subset_all h

theorem Expr.calls_subset_all {expr : Expr} {exprs : List Expr} (h : expr ∈ exprs) :
    expr.calls ⊆ Expr.callsAll exprs :=
  collected_subset rfl (fun _ _ => rfl) h

theorem Expr.calls_of_part {expr part : Expr} (h : part ∈ expr.parts) :
    part.calls ⊆ expr.calls := by
  cases expr with
  | simple token => cases h
  | list elements => exact calls_subset_all h
  | call operator arguments =>
      exact List.Subset.trans (calls_subset_all h) (List.subset_append_right _ _)

theorem Expr.mem_calls {operator : Token} (h : operator.kind = .identifier)
    (arguments : List Expr) : operator.spelling ∈ (Expr.call operator arguments).calls := by
  simp [calls, h]

namespace Statement

section

variable {statement : Statement} {statements : List Statement} {body : Block}

theorem reads_subset_all (h : statement ∈ statements) : statement.reads ⊆ readsAll statements :=
  collected_subset rfl (fun _ _ => rfl) h

theorem writes_subset_all (h : statement ∈ statements) :
    statement.writes ⊆ writesAll statements :=
  collected_subset rfl (fun _ _ => rfl) h

theorem declares_subset_all (h : statement ∈ statements) :
    statement.declares ⊆ declaresAll statements :=
  collected_subset rfl (fun _ _ => rfl) h

theorem inner_subset_all (h : statement ∈ statements) : statement.inner ⊆ innerAll statements :=
  collected_subset rfl (fun _ _ => rfl) h

theorem reads_of_expr {expr : Expr} (h : expr ∈ statement.exprs) :
    expr.reads ⊆ statement.reads := by
  refine subset_of_flatMap ?_ h
  cases statement <;> simp [exprs, reads]

theorem reads_of_block (h : body ∈ statement.blocks) : readsAll body ⊆ statement.reads := by
  refine subset_of_flatMap ?_ h
  cases statement <;> simp [blocks, reads]

theorem writes_of_block (h : body ∈ statement.blocks) : writesAll body ⊆ statement.writes := by
  refine subset_of_flatMap ?_ h
  cases statement <;> simp [blocks, writes]

theorem declares_of_block (h : body ∈ statement.blocks) :
    declaresAll body ⊆ statement.declares := by
  refine subset_of_flatMap ?_ h
  cases statement <;> simp [blocks, declares]

theorem inner_of_block (h : body ∈ statement.blocks) : innerAll body ⊆ statement.inner := by
  refine subset_of_flatMap ?_ h
  cases statement <;> simp [blocks, inner]

end

end Statement

end TinyScript
