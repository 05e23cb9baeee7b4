import TinyScript.Proofs.Program.Names

/-!
# Returns in a program

Where the text of a statement has returns, in two respects: whether there is one at all, outside the
bodies of functions, and whether every way through the statement comes to one. What stands behind a
statement of the second sort in a block is dead, and a program can be pruned of it
(`Statement.pruned`).
-/

namespace TinyScript

mutual

/-- There is a return in the statement where it stands. The bodies of functions stand elsewhere. -/
def Statement.mayReturn : Statement → Bool
  | .assign _ _ => false
  | .block body => Statement.mayReturnAny body
  | .ifElse _ thenBlock elseBlock =>
    Statement.mayReturnAny thenBlock || Statement.mayReturnAny elseBlock
  | .while _ body => Statement.mayReturnAny body
  | .repeat _ body => Statement.mayReturnAny body
  | .func _ _ _ => false
  | .return _ => true
  | .print _ => false

def Statement.mayReturnAny : List Statement → Bool
  | [] => false
  | statement :: statements => statement.mayReturn || Statement.mayReturnAny statements

end

mutual

/-- Every way through the statement comes to a return. Loops may make no round at all. -/
def Statement.alwaysReturns : Statement → Bool
  | .block body => Statement.alwaysReturnsAny body
  | .ifElse _ thenBlock elseBlock =>
    Statement.alwaysReturnsAny thenBlock && Statement.alwaysReturnsAny elseBlock
  | .return _ => true
  | _ => false

def Statement.alwaysReturnsAny : List Statement → Bool
  | [] => false
  | statement :: statements => statement.alwaysReturns || Statement.alwaysReturnsAny statements

end

mutual

/-- The statement without all that stands behind a statement which always returns, in any block,
also in the bodies of functions. -/
def Statement.pruned : Statement → Statement
  | .assign target value => .assign target value
  | .block body => .block (Statement.prunedAll body)
  | .ifElse condition thenBlock elseBlock =>
    .ifElse condition (Statement.prunedAll thenBlock) (Statement.prunedAll elseBlock)
  | .while condition body => .while condition (Statement.prunedAll body)
  | .repeat count body => .repeat count (Statement.prunedAll body)
  | .func name parameters body => .func name parameters (Statement.prunedAll body)
  | .return value => .return value
  | .print value => .print value

def Statement.prunedAll : List Statement → List Statement
  | [] => []
  | statement :: statements =>
    statement.pruned :: if statement.alwaysReturns then [] else Statement.prunedAll statements

end

/-- The declaration with its body pruned. -/
def FunctionDecl.pruned (decl : FunctionDecl) : FunctionDecl :=
  { decl with body := Statement.prunedAll decl.body }

mutual

theorem Statement.alwaysReturns_pruned :
    ∀ statement : Statement, statement.pruned.alwaysReturns = statement.alwaysReturns
  | .block body => Statement.alwaysReturnsAny_prunedAll body
  | .ifElse _ thenBlock elseBlock => by
      rw [pruned, alwaysReturns, alwaysReturns, Statement.alwaysReturnsAny_prunedAll thenBlock,
        Statement.alwaysReturnsAny_prunedAll elseBlock]
  | .assign _ _ | .while _ _ | .repeat _ _ | .func _ _ _ | .return _ | .print _ => rfl

theorem Statement.alwaysReturnsAny_prunedAll : ∀ statements : List Statement,
    Statement.alwaysReturnsAny (Statement.prunedAll statements) =
      Statement.alwaysReturnsAny statements
  | [] => rfl
  | statement :: statements => by
      rw [prunedAll, alwaysReturnsAny, alwaysReturnsAny, Statement.alwaysReturns_pruned statement]
      split
      · next halways => rw [halways, Bool.true_or, Bool.true_or]
      · rw [Statement.alwaysReturnsAny_prunedAll statements]

end

mutual

theorem Statement.pruned_pruned :
    ∀ statement : Statement, statement.pruned.pruned = statement.pruned
  | .block body => by rw [pruned, pruned, Statement.prunedAll_prunedAll body]
  | .ifElse _ thenBlock elseBlock => by
      rw [pruned, pruned, Statement.prunedAll_prunedAll thenBlock,
        Statement.prunedAll_prunedAll elseBlock]
  | .while _ body => by rw [pruned, pruned, Statement.prunedAll_prunedAll body]
  | .repeat _ body => by rw [pruned, pruned, Statement.prunedAll_prunedAll body]
  | .func _ _ body => by rw [pruned, pruned, Statement.prunedAll_prunedAll body]
  | .assign _ _ | .return _ | .print _ => rfl

theorem Statement.prunedAll_prunedAll : ∀ statements : List Statement,
    Statement.prunedAll (Statement.prunedAll statements) = Statement.prunedAll statements
  | [] => rfl
  | statement :: statements => by
      rw [prunedAll, prunedAll, Statement.pruned_pruned statement,
        Statement.alwaysReturns_pruned statement]
      split
      · rfl
      · rw [Statement.prunedAll_prunedAll statements]

end

/-- What stands behind a statement that always returns is left out. -/
theorem Statement.prunedAll_of_alwaysReturns {statement : Statement}
    (h : statement.alwaysReturns = true) (before tail other : List Statement) :
    Statement.prunedAll (before ++ statement :: tail) =
      Statement.prunedAll (before ++ statement :: other) := by
  induction before with
  | nil => rw [List.nil_append, List.nil_append, prunedAll, prunedAll, if_pos h, if_pos h]
  | cons first before ih => rw [List.cons_append, List.cons_append, prunedAll, prunedAll, ih]

theorem FunctionDecl.pruned_eq_iff {decl other : FunctionDecl} :
    other.pruned = decl.pruned ↔ other.name = decl.name ∧ other.parameters = decl.parameters ∧
      Statement.prunedAll other.body = Statement.prunedAll decl.body := by
  rw [pruned, pruned, FunctionDecl.mk.injEq]

theorem Statement.mayReturnAny_eq_any (statements : List Statement) :
    Statement.mayReturnAny statements = statements.any Statement.mayReturn := by
  induction statements with
  | nil => rfl
  | cons statement statements ih => rw [mayReturnAny, ih, List.any_cons]

theorem Statement.mayReturn_of_member {statement member : Statement} {body : Block}
    (h : statement.mayReturn = false) (hbody : body ∈ statement.blocks) (hmember : member ∈ body) :
    member.mayReturn = false := by
  have hblocks : statement.blocks.all fun body => !mayReturnAny body := by
    cases statement <;> simp_all [blocks, mayReturn]
  have hnone := List.all_eq_true.1 hblocks body hbody
  rw [Bool.not_eq_true', mayReturnAny_eq_any, List.any_eq_false] at hnone
  exact Bool.eq_false_iff.2 (hnone member hmember)

end TinyScript
