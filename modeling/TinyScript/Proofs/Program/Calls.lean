import TinyScript.Proofs.Program.Names

/-!
# Calls in a program

The functions that a statement calls, those that it declares with or without all that they declare,
and whether it has loops without a count. Calls and such loops are the places at which a run can go
on forever.
-/

namespace TinyScript

mutual

/-- The functions that a statement calls by name where it stands. -/
def Statement.calls : Statement → List String
  | .assign _ value => value.calls
  | .block body => Statement.callsAll body
  | .ifElse condition thenBlock elseBlock =>
    condition.calls ++ Statement.callsAll thenBlock ++ Statement.callsAll elseBlock
  | .while condition body => condition.calls ++ Statement.callsAll body
  | .repeat count body => count.calls ++ Statement.callsAll body
  | .func _ _ _ => []
  | .return value => value.calls
  | .print value => value.calls

def Statement.callsAll : List Statement → List String
  | [] => []
  | statement :: statements => statement.calls ++ Statement.callsAll statements

end

mutual

/-- The declarations of functions in a statement, also those in the bodies of functions. -/
def Statement.functions : Statement → List FunctionDecl
  | .assign _ _ => []
  | .block body => Statement.functionsAll body
  | .ifElse _ thenBlock elseBlock =>
    Statement.functionsAll thenBlock ++ Statement.functionsAll elseBlock
  | .while _ body => Statement.functionsAll body
  | .repeat _ body => Statement.functionsAll body
  | .func name parameters body => ⟨name, parameters, body⟩ :: Statement.functionsAll body
  | .return _ => []
  | .print _ => []

def Statement.functionsAll : List Statement → List FunctionDecl
  | [] => []
  | statement :: statements => statement.functions ++ Statement.functionsAll statements

end

mutual

/-- The declarations of functions in a statement, without those in the bodies of functions. -/
def Statement.declarations : Statement → List FunctionDecl
  | .assign _ _ => []
  | .block body => Statement.declarationsAll body
  | .ifElse _ thenBlock elseBlock =>
    Statement.declarationsAll thenBlock ++ Statement.declarationsAll elseBlock
  | .while _ body => Statement.declarationsAll body
  | .repeat _ body => Statement.declarationsAll body
  | .func name parameters body => [⟨name, parameters, body⟩]
  | .return _ => []
  | .print _ => []

def Statement.declarationsAll : List Statement → List FunctionDecl
  | [] => []
  | statement :: statements => statement.declarations ++ Statement.declarationsAll statements

end

mutual

/-- There is a loop without a count in the statement, be it in the body of a function. -/
def Statement.hasWhile : Statement → Bool
  | .assign _ _ => false
  | .block body => Statement.hasWhileAny body
  | .ifElse _ thenBlock elseBlock =>
    Statement.hasWhileAny thenBlock || Statement.hasWhileAny elseBlock
  | .while _ _ => true
  | .repeat _ body => Statement.hasWhileAny body
  | .func _ _ body => Statement.hasWhileAny body
  | .return _ => false
  | .print _ => false

def Statement.hasWhileAny : List Statement → Bool
  | [] => false
  | statement :: statements => statement.hasWhile || Statement.hasWhileAny statements

end

namespace Statement

theorem hasWhileAny_eq_any (statements : List Statement) :
    hasWhileAny statements = statements.any hasWhile := by
  induction statements with
  | nil => rfl
  | cons statement statements ih => rw [hasWhileAny, ih, List.any_cons]

section

variable {statement member : Statement} {body : Block}

theorem calls_of_mem (h : member ∈ body) : member.calls ⊆ callsAll body :=
  collected_subset rfl (fun _ _ => rfl) h

theorem functions_of_mem (h : member ∈ body) : member.functions ⊆ functionsAll body :=
  collected_subset rfl (fun _ _ => rfl) h

theorem declarations_of_mem (h : member ∈ body) :
    member.declarations ⊆ declarationsAll body :=
  collected_subset rfl (fun _ _ => rfl) h

theorem hasWhile_of_mem (hbody : hasWhileAny body = false) (h : member ∈ body) :
    member.hasWhile = false := by
  rw [hasWhileAny_eq_any, List.any_eq_false] at hbody
  exact Bool.not_eq_true _ ▸ hbody member h

theorem calls_of_expr {expr : Expr} (h : expr ∈ statement.exprs) :
    expr.calls ⊆ statement.calls := by
  refine subset_of_flatMap ?_ h
  cases statement <;> simp [exprs, calls]

theorem calls_of_block (h : body ∈ statement.blocks) : callsAll body ⊆ statement.calls := by
  refine subset_of_flatMap ?_ h
  cases statement <;> simp [blocks, calls]

theorem functions_of_block (h : body ∈ statement.blocks) :
    functionsAll body ⊆ statement.functions := by
  refine subset_of_flatMap ?_ h
  cases statement <;> simp [blocks, functions]

theorem declarations_of_block (h : body ∈ statement.blocks) :
    declarationsAll body ⊆ statement.declarations := by
  refine subset_of_flatMap ?_ h
  cases statement <;> simp [blocks, declarations]

theorem hasWhile_of_block (hstatement : statement.hasWhile = false)
    (h : body ∈ statement.blocks) : hasWhileAny body = false := by
  have hall : statement.blocks.any hasWhileAny = false := by
    cases statement <;> simp_all [blocks, hasWhile]
  exact Bool.not_eq_true _ ▸ List.any_eq_false.1 hall body h

end

end Statement

/-! ## Sizes -/

theorem Expr.sizeOf_of_part {expr part : Expr} (h : part ∈ expr.parts) :
    sizeOf part < sizeOf expr := by
  have hpart := List.sizeOf_lt_of_mem h
  cases expr with
  | simple token => cases h
  | list elements =>
      rw [parts] at hpart
      rw [list.sizeOf_spec]
      omega
  | call operator arguments =>
      rw [parts] at hpart
      rw [call.sizeOf_spec]
      omega

theorem Statement.sizeOf_of_expr {statement : Statement} {expr : Expr}
    (h : expr ∈ statement.exprs) : sizeOf expr < sizeOf statement := by
  cases statement with
  | assign | ifElse | «while» | «repeat» | «return» | print =>
      obtain rfl := List.mem_singleton.1 h
      simp only [assign.sizeOf_spec, ifElse.sizeOf_spec, while.sizeOf_spec, repeat.sizeOf_spec,
        return.sizeOf_spec, print.sizeOf_spec]
      omega
  | block | func => cases h

theorem Statement.sizeOf_of_block {statement : Statement} {body : Block}
    (h : body ∈ statement.blocks) : sizeOf body < sizeOf statement := by
  cases statement with
  | ifElse condition thenBlock elseBlock =>
      rw [ifElse.sizeOf_spec]
      obtain rfl | rfl : body = thenBlock ∨ body = elseBlock := by simpa [blocks] using h
      · omega
      · omega
  | block | «while» | «repeat» =>
      obtain rfl := List.mem_singleton.1 h
      simp only [block.sizeOf_spec, while.sizeOf_spec, repeat.sizeOf_spec]
      omega
  | assign | func | «return» | print => cases h

end TinyScript
