import TinyScript.Proofs.Program.Sentence

/-!
# Well-formed trees

A tree may be built by hand from any tokens. It is well-formed if its words are of the kinds that
the grammar asks for: identifiers and literals as simple expressions, callable words at the head of
calls, and identifiers where something is named. A parse builds no other trees: what it has read
around the next token is well-formed, and a token keeps it so (`ParseState.wellFormed_step`).
-/

namespace TinyScript

/-- The word is an expression of its own. -/
def Token.isSimple (token : Token) : Bool :=
  token.kind = .identifier || token.kind.isLiteral

def Token.isName (token : Token) : Bool :=
  token.kind = .identifier

mutual

def Expr.wellFormed : Expr → Bool
  | .simple token => token.isSimple
  | .list elements => Expr.wellFormedAll elements
  | .call operator arguments => operator.kind.isCallable && Expr.wellFormedAll arguments

def Expr.wellFormedAll : List Expr → Bool
  | [] => true
  | expr :: exprs => expr.wellFormed && Expr.wellFormedAll exprs

end

mutual

def Statement.wellFormed : Statement → Bool
  | .assign target value => target.isName && value.wellFormed
  | .block body => Statement.wellFormedAll body
  | .ifElse condition thenBlock elseBlock =>
    condition.wellFormed && Statement.wellFormedAll thenBlock && Statement.wellFormedAll elseBlock
  | .while condition body => condition.wellFormed && Statement.wellFormedAll body
  | .repeat count body => count.wellFormed && Statement.wellFormedAll body
  | .func name parameters body =>
    name.isName && parameters.all Token.isName && Statement.wellFormedAll body
  | .return value => value.wellFormed
  | .print value => value.wellFormed

def Statement.wellFormedAll : List Statement → Bool
  | [] => true
  | statement :: statements => statement.wellFormed && Statement.wellFormedAll statements

end

/-- The tree of any goal is well-formed. -/
def Goal.wellFormed : (goal : Goal) → goal.Tree → Bool
  | .statement => Statement.wellFormed
  | .expression => Expr.wellFormed
  | .block => Statement.wellFormedAll

theorem Expr.wellFormedAll_eq_all (exprs : List Expr) :
    Expr.wellFormedAll exprs = exprs.all Expr.wellFormed := by
  induction exprs with
  | nil => rfl
  | cons expr exprs ih => rw [wellFormedAll, ih, List.all_cons]

theorem Statement.wellFormedAll_eq_all (statements : List Statement) :
    Statement.wellFormedAll statements = statements.all Statement.wellFormed := by
  induction statements with
  | nil => rfl
  | cons statement statements ih => rw [wellFormedAll, ih, List.all_cons]

@[simp] theorem Expr.wellFormedAll_reverse (exprs : List Expr) :
    Expr.wellFormedAll exprs.reverse = Expr.wellFormedAll exprs := by
  rw [wellFormedAll_eq_all, wellFormedAll_eq_all, List.all_reverse]

@[simp] theorem Statement.wellFormedAll_reverse (statements : List Statement) :
    Statement.wellFormedAll statements.reverse = Statement.wellFormedAll statements := by
  rw [wellFormedAll_eq_all, wellFormedAll_eq_all, List.all_reverse]

/-! ## What surrounds the next token -/

mutual

def ExprPlace.wellFormed {goal : Goal} : ExprPlace goal → Bool
  | .whole => true
  | .element place before => place.wellFormed && Expr.wellFormedAll before
  | .argument place operator before =>
    place.wellFormed && operator.kind.isCallable && Expr.wellFormedAll before
  | .assigned place target => place.wellFormed && target.isName
  | .printed place => place.wellFormed
  | .returned place => place.wellFormed
  | .ifCondition place => place.wellFormed
  | .whileCondition place => place.wellFormed
  | .repeatCount place => place.wellFormed

def BlockPlace.wellFormed {goal : Goal} : BlockPlace goal → Bool
  | .whole => true
  | .statement place => place.wellFormed
  | .thenBranch place condition => place.wellFormed && condition.wellFormed
  | .elseBranch place condition thenBlock =>
    place.wellFormed && condition.wellFormed && Statement.wellFormedAll thenBlock
  | .whileBody place condition => place.wellFormed && condition.wellFormed
  | .repeatBody place count => place.wellFormed && count.wellFormed
  | .functionBody place name parameters =>
    place.wellFormed && name.isName && parameters.all Token.isName

def StatementPlace.wellFormed {goal : Goal} : StatementPlace goal → Bool
  | .whole => true
  | .member place before => place.wellFormed && Statement.wellFormedAll before

end

variable {goal : Goal}

def ParseState.wellFormed : ParseState goal → Bool
  | .expression place => place.wellFormed
  | .operator place => place.wellFormed
  | .statement place => place.wellFormed
  | .brace place => place.wellFormed
  | .elseWord place condition thenBlock =>
    place.wellFormed && condition.wellFormed && Statement.wellFormedAll thenBlock
  | .equalsSign place target => place.wellFormed && target.isName
  | .functionName place => place.wellFormed
  | .parameterList place name => place.wellFormed && name.isName
  | .parameter place name before =>
    place.wellFormed && name.isName && before.all Token.isName

/-- A rejected token leaves nothing behind. -/
def Progress.wellFormed : Progress goal → Bool
  | .more state => state.wellFormed
  | .complete tree => goal.wellFormed tree
  | .reject _ | .refuse _ => true

/-! ## Filling a place -/

theorem StatementPlace.wellFormed_fill {place : StatementPlace goal} {statement : Statement}
    (hplace : place.wellFormed = true) (hstatement : statement.wellFormed = true) :
    (place.fill statement).wellFormed = true := by
  cases place with
  | whole => exact hstatement
  | member place before =>
      simp_all [fill, Progress.wellFormed, ParseState.wellFormed, wellFormed,
        Statement.wellFormedAll]

theorem ExprPlace.wellFormed_fill {place : ExprPlace goal} {expr : Expr}
    (hplace : place.wellFormed = true) (hexpr : expr.wellFormed = true) :
    (place.fill expr).wellFormed = true := by
  cases place with
  | whole => exact hexpr
  | assigned place target =>
      rw [wellFormed, Bool.and_eq_true] at hplace
      apply StatementPlace.wellFormed_fill hplace.1
      rw [Statement.wellFormed, hplace.2, hexpr, Bool.and_true]
  | printed place => exact StatementPlace.wellFormed_fill hplace hexpr
  | returned place => exact StatementPlace.wellFormed_fill hplace hexpr
  | _ =>
      simp_all [fill, Progress.wellFormed, ParseState.wellFormed, wellFormed,
        BlockPlace.wellFormed, Expr.wellFormedAll]

theorem BlockPlace.wellFormed_fill {place : BlockPlace goal} {block : Block}
    (hplace : place.wellFormed = true) (hblock : Statement.wellFormedAll block = true) :
    (place.fill block).wellFormed = true := by
  cases place with
  | whole => exact hblock
  | statement place => exact StatementPlace.wellFormed_fill hplace hblock
  | thenBranch place condition =>
      simp_all [fill, Progress.wellFormed, ParseState.wellFormed, wellFormed]
  | _ =>
      simp only [wellFormed, Bool.and_eq_true] at hplace
      apply StatementPlace.wellFormed_fill (by simp [hplace])
      simp [Statement.wellFormed, hplace, hblock]

/-! ## One more token -/

theorem ExprPlace.wellFormed_begin {place : ExprPlace goal} (h : place.wellFormed = true)
    (token : Token) : (place.begin token).wellFormed = true := by
  unfold begin
  split
  · exact h
  · split
    · simp [Progress.wellFormed, ParseState.wellFormed, wellFormed, h, Expr.wellFormedAll]
    · split
      · next hsimple => exact wellFormed_fill h (by simpa [Expr.wellFormed, Token.isSimple])
      · rfl

theorem ExprPlace.wellFormed_step {place : ExprPlace goal} (h : place.wellFormed = true)
    (token : Token) : (place.step token).wellFormed = true := by
  cases place with
  | element place before =>
      rw [step]
      split
      · rw [wellFormed, Bool.and_eq_true] at h
        exact wellFormed_fill h.1 (by simp [Expr.wellFormed, h])
      · exact wellFormed_begin h token
  | argument place operator before =>
      rw [step]
      split
      · simp only [wellFormed, Bool.and_eq_true] at h
        exact wellFormed_fill h.1.1 (by simp [Expr.wellFormed, h])
      · exact wellFormed_begin h token
  | _ => exact wellFormed_begin h token

theorem StatementPlace.wellFormed_beginAssignment {place : StatementPlace goal}
    (h : place.wellFormed = true) (target : Token) :
    (place.beginAssignment target).wellFormed = true := by
  unfold beginAssignment
  split
  · next hname => simp [Progress.wellFormed, ParseState.wellFormed, h, Token.isName, hname]
  · rfl

theorem StatementPlace.wellFormed_begin {place : StatementPlace goal}
    (h : place.wellFormed = true) (token : Token) : (place.begin token).wellFormed = true := by
  unfold begin
  split
  case h_5 =>
    simp [Progress.wellFormed, ParseState.wellFormed, wellFormed, BlockPlace.wellFormed, h,
      Statement.wellFormedAll]
  case h_8 =>
    split
    · exact wellFormed_beginAssignment h token
    · rfl
  all_goals exact h

theorem StatementPlace.wellFormed_step {place : StatementPlace goal}
    (h : place.wellFormed = true) (token : Token) : (place.step token).wellFormed = true := by
  cases place with
  | whole => exact wellFormed_begin h token
  | member place before =>
      rw [step]
      split
      · rw [wellFormed, Bool.and_eq_true] at h
        exact BlockPlace.wellFormed_fill h.1 (by simp [h])
      · exact wellFormed_begin h token

private theorem wellFormed_expectWord {construct expected : String} {token : Token}
    {state : ParseState goal} (h : state.wellFormed = true) :
    (expectWord construct expected token state).wellFormed = true := by
  unfold expectWord
  split
  · exact h
  · rfl

private theorem wellFormed_expectName {what : String} {token : Token} {state : ParseState goal}
    (h : token.isName = true → state.wellFormed = true) :
    (expectName what token state).wellFormed = true := by
  unfold expectName
  split
  · next hname => exact h (by simp [Token.isName, hname])
  · rfl

/-- What a parse has read is well-formed after each token. -/
theorem ParseState.wellFormed_step {state : ParseState goal} (h : state.wellFormed = true)
    (token : Token) : (state.step token).wellFormed = true := by
  cases state with
  | expression place => exact ExprPlace.wellFormed_step h token
  | statement place => exact StatementPlace.wellFormed_step h token
  | operator place =>
      rw [wellFormed] at h
      rw [step]
      split
      · next hcallable =>
          simp [Progress.wellFormed, wellFormed, ExprPlace.wellFormed, h, hcallable,
            Expr.wellFormedAll]
      · rfl
  | brace place =>
      apply wellFormed_expectWord
      rw [wellFormed] at h
      simp [wellFormed, StatementPlace.wellFormed, h, Statement.wellFormedAll]
  | elseWord place condition thenBlock => exact wellFormed_expectWord h
  | equalsSign place target => exact wellFormed_expectWord h
  | functionName place =>
      apply wellFormed_expectName
      intro hname
      simp only [wellFormed] at h ⊢
      rw [h, hname, Bool.and_true]
  | parameterList place name =>
      apply wellFormed_expectWord
      simp only [wellFormed] at h ⊢
      rw [h, List.all_nil, Bool.and_true]
  | parameter place name before =>
      rw [wellFormed] at h
      rw [step]
      split
      · simpa [Progress.wellFormed, wellFormed, BlockPlace.wellFormed] using h
      · apply wellFormed_expectName
        intro hname
        simp_all [wellFormed]

/-- A parse that starts from well-formed parts completes a well-formed tree. -/
theorem ParseState.Accepts.wellFormed {state : ParseState goal} {tokens : List Token}
    {tree : goal.Tree} (h : state.Accepts tokens tree) (hstate : state.wellFormed = true) :
    goal.wellFormed tree = true := by
  induction h with
  | @last state token tree hstep =>
      have hcomplete := wellFormed_step hstate token
      rwa [hstep] at hcomplete
  | @more state next token tokens tree hstep _ ih =>
      have hnext := wellFormed_step hstate token
      rw [hstep] at hnext
      exact ih hnext

end TinyScript
