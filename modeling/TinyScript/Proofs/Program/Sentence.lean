import TinyScript.Program.Parser
import TinyScript.Proofs.Token.Taking

/-!
# Sentences

The sentence of a tree is its sequence of tokens in the grammar. A parse that is under way has read
the sentence of its place, and each token it takes is the next one of that sentence
(`ParseState.hasRead_step`). So a parse that succeeds has taken the sentence of its tree, no more
and no less, and it does so from every stream that starts with this sentence (`run_eq_ok_iff`).
-/

namespace TinyScript

/-! ## The sentence of a tree -/

mutual

def Expr.tokens : Expr → List Token
  | .simple token => [token]
  | .list elements => ⟨"["⟩ :: Expr.tokensAll elements ++ [⟨"]"⟩]
  | .call operator arguments => ⟨"("⟩ :: operator :: Expr.tokensAll arguments ++ [⟨")"⟩]

def Expr.tokensAll : List Expr → List Token
  | [] => []
  | expr :: exprs => expr.tokens ++ Expr.tokensAll exprs

end

/-- Braces around the sentences of statements. -/
def bracedTokens (statements : List Token) : List Token :=
  ⟨"\x7b"⟩ :: statements ++ [⟨"\x7d"⟩]

mutual

def Statement.tokens : Statement → List Token
  | .assign target value => target :: ⟨"="⟩ :: value.tokens
  | .block body => bracedTokens (Statement.tokensAll body)
  | .ifElse condition thenBlock elseBlock =>
    ⟨"if"⟩ :: condition.tokens ++ bracedTokens (Statement.tokensAll thenBlock) ++
      ⟨"else"⟩ :: bracedTokens (Statement.tokensAll elseBlock)
  | .while condition body =>
    ⟨"while"⟩ :: condition.tokens ++ bracedTokens (Statement.tokensAll body)
  | .repeat count body =>
    ⟨"repeat"⟩ :: count.tokens ++ bracedTokens (Statement.tokensAll body)
  | .func name parameters body =>
    ⟨"func"⟩ :: name :: ⟨"("⟩ :: parameters ++ ⟨")"⟩ :: bracedTokens (Statement.tokensAll body)
  | .return value => ⟨"return"⟩ :: value.tokens
  | .print value => ⟨"print"⟩ :: value.tokens

def Statement.tokensAll : List Statement → List Token
  | [] => []
  | statement :: statements => statement.tokens ++ Statement.tokensAll statements

end

def Block.tokens (block : Block) : List Token :=
  bracedTokens (Statement.tokensAll block)

/-- The sentence of a tree of any goal. -/
def Goal.tokens : (goal : Goal) → goal.Tree → List Token
  | .statement => Statement.tokens
  | .expression => Expr.tokens
  | .block => Block.tokens

theorem Expr.tokensAll_append (exprs others : List Expr) :
    Expr.tokensAll (exprs ++ others) = Expr.tokensAll exprs ++ Expr.tokensAll others := by
  induction exprs with
  | nil => rfl
  | cons expr exprs ih => simp [Expr.tokensAll, ih]

theorem Statement.tokensAll_append (statements others : List Statement) :
    Statement.tokensAll (statements ++ others) =
      Statement.tokensAll statements ++ Statement.tokensAll others := by
  induction statements with
  | nil => rfl
  | cons statement statements ih => simp [Statement.tokensAll, ih]

theorem Statement.tokensAll_eq_flatMap (statements : List Statement) :
    Statement.tokensAll statements = statements.flatMap Statement.tokens := by
  induction statements with
  | nil => rfl
  | cons statement statements ih => simp [Statement.tokensAll, ih]

/-! ## What a place has read -/

mutual

def ExprPlace.read {goal : Goal} : ExprPlace goal → List Token
  | .whole => []
  | .element place before => place.read ++ ⟨"["⟩ :: Expr.tokensAll before.reverse
  | .argument place operator before =>
    place.read ++ ⟨"("⟩ :: operator :: Expr.tokensAll before.reverse
  | .assigned place target => place.read ++ [target, ⟨"="⟩]
  | .printed place => place.read ++ [⟨"print"⟩]
  | .returned place => place.read ++ [⟨"return"⟩]
  | .ifCondition place => place.read ++ [⟨"if"⟩]
  | .whileCondition place => place.read ++ [⟨"while"⟩]
  | .repeatCount place => place.read ++ [⟨"repeat"⟩]

/-- The tokens before a block, without its opening brace. -/
def BlockPlace.read {goal : Goal} : BlockPlace goal → List Token
  | .whole => []
  | .statement place => place.read
  | .thenBranch place condition => place.read ++ ⟨"if"⟩ :: condition.tokens
  | .elseBranch place condition thenBlock =>
    place.read ++ ⟨"if"⟩ :: condition.tokens ++ bracedTokens (Statement.tokensAll thenBlock) ++
      [⟨"else"⟩]
  | .whileBody place condition => place.read ++ ⟨"while"⟩ :: condition.tokens
  | .repeatBody place count => place.read ++ ⟨"repeat"⟩ :: count.tokens
  | .functionBody place name parameters =>
    place.read ++ ⟨"func"⟩ :: name :: ⟨"("⟩ :: parameters ++ [⟨")"⟩]

def StatementPlace.read {goal : Goal} : StatementPlace goal → List Token
  | .whole => []
  | .member place before => place.read ++ ⟨"\x7b"⟩ :: Statement.tokensAll before.reverse

end

variable {goal : Goal}

def ParseState.read : ParseState goal → List Token
  | .expression place => place.read
  | .operator place => place.read ++ [⟨"("⟩]
  | .statement place => place.read
  | .brace place => place.read
  | .elseWord place condition thenBlock =>
    place.read ++ ⟨"if"⟩ :: condition.tokens ++ bracedTokens (Statement.tokensAll thenBlock)
  | .equalsSign place target => place.read ++ [target]
  | .functionName place => place.read ++ [⟨"func"⟩]
  | .parameterList place name => place.read ++ [⟨"func"⟩, name]
  | .parameter place name before =>
    place.read ++ ⟨"func"⟩ :: name :: ⟨"("⟩ :: before.reverse

/-- The tokens have been read where the parse goes on, and make up its tree where it is complete. -/
def Progress.HasRead (tokens : List Token) : Progress goal → Prop
  | .more state => state.read = tokens
  | .complete tree => goal.tokens tree = tokens
  | .reject _ | .refuse _ => True

theorem StatementPlace.hasRead_fill (place : StatementPlace goal) (statement : Statement) :
    (place.fill statement).HasRead (place.read ++ statement.tokens) := by
  cases place with
  | whole => simp [fill, Progress.HasRead, Goal.tokens, read]
  | member place before =>
      simp [fill, Progress.HasRead, ParseState.read, read, Statement.tokensAll_append,
        Statement.tokensAll]

theorem ExprPlace.hasRead_fill (place : ExprPlace goal) (expr : Expr) :
    (place.fill expr).HasRead (place.read ++ expr.tokens) := by
  cases place with
  | assigned place target =>
      simpa [fill, read, Statement.tokens] using place.hasRead_fill (.assign target expr)
  | printed place =>
      simpa [fill, read, Statement.tokens] using place.hasRead_fill (.print expr)
  | returned place =>
      simpa [fill, read, Statement.tokens] using place.hasRead_fill (.return expr)
  | _ =>
      simp [fill, Progress.HasRead, ParseState.read, read, BlockPlace.read, Goal.tokens,
        Expr.tokensAll_append, Expr.tokensAll]

theorem BlockPlace.hasRead_fill (place : BlockPlace goal) (block : Block) :
    (place.fill block).HasRead (place.read ++ block.tokens) := by
  cases place with
  | whole => simp [fill, Progress.HasRead, Goal.tokens, read]
  | thenBranch place condition =>
      simp [fill, Progress.HasRead, ParseState.read, read, Block.tokens]
  | statement place =>
      simpa [fill, read, Block.tokens, Statement.tokens] using
        place.hasRead_fill (.block block)
  | elseBranch place condition thenBlock =>
      simpa [fill, read, Block.tokens, Statement.tokens] using
        place.hasRead_fill (.ifElse condition thenBlock block)
  | whileBody place condition =>
      simpa [fill, read, Block.tokens, Statement.tokens] using
        place.hasRead_fill (.while condition block)
  | repeatBody place count =>
      simpa [fill, read, Block.tokens, Statement.tokens] using
        place.hasRead_fill (.repeat count block)
  | functionBody place name parameters =>
      simpa [fill, read, Block.tokens, Statement.tokens] using
        place.hasRead_fill (.func name parameters block)

/-! ## One more token -/

theorem Token.eq_of_spelling {token : Token} {spelling : String} (h : token.spelling = spelling) :
    token = ⟨spelling⟩ := by
  cases token
  exact congrArg Token.mk h

theorem ExprPlace.hasRead_begin (place : ExprPlace goal) (token : Token) :
    (place.begin token).HasRead (place.read ++ [token]) := by
  unfold begin
  split
  · next h =>
      rw [Token.eq_of_spelling h]
      rfl
  · split
    · next h =>
        rw [Token.eq_of_spelling h]
        rfl
    · split
      · exact place.hasRead_fill (.simple token)
      · trivial

theorem ExprPlace.hasRead_step (place : ExprPlace goal) (token : Token) :
    (place.step token).HasRead (place.read ++ [token]) := by
  cases place with
  | element place before =>
      rw [step]
      split
      · next h =>
          rw [Token.eq_of_spelling h]
          simpa [read, Expr.tokens] using place.hasRead_fill (.list before.reverse)
      · exact hasRead_begin _ token
  | argument place operator before =>
      rw [step]
      split
      · next h =>
          rw [Token.eq_of_spelling h]
          simpa [read, Expr.tokens] using place.hasRead_fill (.call operator before.reverse)
      · exact hasRead_begin _ token
  | _ => exact hasRead_begin _ token

theorem StatementPlace.hasRead_beginAssignment (place : StatementPlace goal) (target : Token) :
    (place.beginAssignment target).HasRead (place.read ++ [target]) := by
  unfold beginAssignment
  split
  · rfl
  · trivial

theorem StatementPlace.hasRead_begin (place : StatementPlace goal) (token : Token) :
    (place.begin token).HasRead (place.read ++ [token]) := by
  unfold begin
  split
  case h_8 =>
    split
    · exact place.hasRead_beginAssignment token
    · trivial
  all_goals
    next h =>
      rw [Token.eq_of_spelling h]
      rfl

theorem StatementPlace.hasRead_step (place : StatementPlace goal) (token : Token) :
    (place.step token).HasRead (place.read ++ [token]) := by
  cases place with
  | whole => exact hasRead_begin _ token
  | member place before =>
      rw [step]
      split
      · next h =>
          rw [Token.eq_of_spelling h]
          simpa [read, Block.tokens, bracedTokens] using place.hasRead_fill before.reverse
      · exact hasRead_begin _ token

private theorem hasRead_expectWord {construct expected : String} {token : Token}
    {state : ParseState goal} {tokens : List Token} (h : state.read = tokens ++ [⟨expected⟩]) :
    (expectWord construct expected token state).HasRead (tokens ++ [token]) := by
  unfold expectWord
  split
  · next hword =>
      rw [Token.eq_of_spelling hword]
      exact h
  · trivial

private theorem hasRead_expectName {what : String} {token : Token} {state : ParseState goal}
    {tokens : List Token} (h : state.read = tokens ++ [token]) :
    (expectName what token state).HasRead (tokens ++ [token]) := by
  unfold expectName
  split
  · exact h
  · trivial

/-- The token that a parse takes is the next one of its sentence. -/
theorem ParseState.hasRead_step (state : ParseState goal) (token : Token) :
    (state.step token).HasRead (state.read ++ [token]) := by
  cases state with
  | expression place => exact place.hasRead_step token
  | statement place => exact place.hasRead_step token
  | operator place =>
      rw [step]
      split
      · simp [Progress.HasRead, read, ExprPlace.read, Expr.tokensAll]
      · trivial
  | brace place =>
      apply hasRead_expectWord
      simp [read, StatementPlace.read, Statement.tokensAll]
  | elseWord place condition thenBlock =>
      apply hasRead_expectWord
      simp [read, BlockPlace.read]
  | equalsSign place target =>
      apply hasRead_expectWord
      simp [read, ExprPlace.read]
  | functionName place =>
      apply hasRead_expectName
      simp [read]
  | parameterList place name =>
      apply hasRead_expectWord
      simp [read]
  | parameter place name before =>
      rw [step]
      split
      · next h =>
          rw [Token.eq_of_spelling h]
          simp [Progress.HasRead, read, BlockPlace.read]
      · apply hasRead_expectName
        simp [read]

/-! ## Words without a kind -/

/-- The token was not found to be wrong. -/
def Progress.GoesOn : Progress goal → Prop
  | .more _ | .complete _ => True
  | .reject _ | .refuse _ => False

theorem Token.kind_ne_unknown {token : Token} {spelling : String}
    (h : token.spelling = spelling) (hspelling : TokenKind.classify spelling ≠ .unknown) :
    token.kind ≠ .unknown := by
  rw [Token.kind, h]
  exact hspelling

private theorem kind_of_expectWord {construct expected : String} {token : Token}
    {state : ParseState goal} (hexpected : TokenKind.classify expected ≠ .unknown)
    (h : (expectWord construct expected token state).GoesOn) : token.kind ≠ .unknown := by
  unfold expectWord at h
  split at h
  · next hword => exact Token.kind_ne_unknown hword hexpected
  · exact h.elim

private theorem kind_of_expectName {what : String} {token : Token} {state : ParseState goal}
    (h : (expectName what token state).GoesOn) : token.kind ≠ .unknown := by
  unfold expectName at h
  split at h
  · next hname => simp [hname]
  · exact h.elim

private theorem ExprPlace.kind_of_begin {place : ExprPlace goal} {token : Token}
    (h : (place.begin token).GoesOn) : token.kind ≠ .unknown := by
  unfold begin at h
  split at h
  · next hword => exact Token.kind_ne_unknown hword (by decide)
  · split at h
    · next hword => exact Token.kind_ne_unknown hword (by decide)
    · split at h
      · next hsimple =>
          intro hkind
          simp [hkind, TokenKind.isLiteral] at hsimple
      · exact h.elim

private theorem ExprPlace.kind_of_step {place : ExprPlace goal} {token : Token}
    (h : (place.step token).GoesOn) : token.kind ≠ .unknown := by
  cases place with
  | element place before =>
      rw [step] at h
      split at h
      · next hword => exact Token.kind_ne_unknown hword (by decide)
      · exact kind_of_begin h
  | argument place operator before =>
      rw [step] at h
      split at h
      · next hword => exact Token.kind_ne_unknown hword (by decide)
      · exact kind_of_begin h
  | _ => exact kind_of_begin h

private theorem StatementPlace.kind_of_begin {place : StatementPlace goal} {token : Token}
    (h : (place.begin token).GoesOn) : token.kind ≠ .unknown := by
  unfold begin at h
  split at h
  case h_8 =>
    split at h
    · next hname => simp [hname]
    · exact h.elim
  all_goals
    next hword => exact Token.kind_ne_unknown hword (by decide)

private theorem StatementPlace.kind_of_step {place : StatementPlace goal} {token : Token}
    (h : (place.step token).GoesOn) : token.kind ≠ .unknown := by
  cases place with
  | whole => exact kind_of_begin h
  | member place before =>
      rw [step] at h
      split at h
      · next hword => exact Token.kind_ne_unknown hword (by decide)
      · exact kind_of_begin h

/-- No parse goes on behind a word without a kind. -/
theorem ParseState.kind_of_step {state : ParseState goal} {token : Token}
    (h : (state.step token).GoesOn) : token.kind ≠ .unknown := by
  cases state with
  | expression place => exact ExprPlace.kind_of_step h
  | statement place => exact StatementPlace.kind_of_step h
  | operator place =>
      rw [step] at h
      split at h
      · next hcallable =>
          intro hkind
          simp [hkind, TokenKind.isCallable] at hcallable
      · exact h.elim
  | brace place => exact kind_of_expectWord (by decide) h
  | elseWord place condition thenBlock => exact kind_of_expectWord (by decide) h
  | equalsSign place target => exact kind_of_expectWord (by decide) h
  | functionName place => exact kind_of_expectName h
  | parameterList place name => exact kind_of_expectWord (by decide) h
  | parameter place name before =>
      rw [step] at h
      split at h
      · next hword => exact Token.kind_ne_unknown hword (by decide)
      · exact kind_of_expectName h

/-! ## Whole parses -/

/-- Taking the tokens one after the other completes the tree with the last of them. -/
inductive ParseState.Accepts : ParseState goal → List Token → goal.Tree → Prop where
  | last {state : ParseState goal} {token : Token} {tree : goal.Tree}
      (hstep : state.step token = .complete tree) : Accepts state [token] tree
  | more {state next : ParseState goal} {token : Token} {tokens : List Token}
      {tree : goal.Tree} (hstep : state.step token = .more next)
      (hrest : Accepts next tokens tree) : Accepts state (token :: tokens) tree

/-- What a parse takes completes what it has read to the sentence of its tree. -/
theorem ParseState.Accepts.tokens_eq {state : ParseState goal} {tokens : List Token}
    {tree : goal.Tree} (h : state.Accepts tokens tree) :
    goal.tokens tree = state.read ++ tokens := by
  induction h with
  | @last state token tree hstep =>
      have hread := state.hasRead_step token
      rwa [hstep] at hread
  | @more state next token tokens tree hstep _ ih =>
      have hread := state.hasRead_step token
      rw [hstep] at hread
      rw [ih, show next.read = _ from hread, List.append_assoc, List.singleton_append]

theorem ParseState.Accepts.kind_ne_unknown {state : ParseState goal} {tokens : List Token}
    {tree : goal.Tree} (h : state.Accepts tokens tree) :
    ∀ token ∈ tokens, token.kind ≠ .unknown := by
  induction h with
  | last hstep =>
      intro token htoken
      rw [List.mem_singleton.1 htoken]
      apply kind_of_step
      rw [hstep]
      trivial
  | more hstep _ ih =>
      intro token htoken
      rcases List.mem_cons.1 htoken with rfl | htail
      · apply kind_of_step
        rw [hstep]
        trivial
      · exact ih token htail

theorem ParseState.run_eq (state : ParseState goal) (stream : TokenStream) :
    state.run stream =
      match stream.lookahead with
      | (.error e, rest) => (.error e.toError, rest)
      | (.ok token, rest) =>
        match state.step token with
        | .more next => next.run rest.advance
        | .complete tree => (.ok tree, rest.advance)
        | .reject e => (.error (.parsing e), rest.advance)
        | .refuse e => (.error (.parsing e), rest) := by
  rw [run]
  split
  · next hlook => rw [hlook]
  · next token rest hlook =>
      cases hstep : state.step token <;> simp only [hlook, hstep]

/-- A parse succeeds exactly if the stream starts with tokens that it accepts. -/
theorem ParseState.run_eq_ok_iff {state : ParseState goal} {stream rest : TokenStream}
    {tree : goal.Tree} :
    state.run stream = (.ok tree, rest) ↔
      ∃ tokens, stream.Takes tokens rest ∧ state.Accepts tokens tree := by
  constructor
  · intro h
    fun_induction ParseState.run state stream with
    | case1 => simp at h
    | case2 state stream token seen hlook next hstep _ ih =>
        obtain ⟨tokens, htakes, haccepts⟩ := ih h
        exact ⟨token :: tokens, .cons (TokenStream.next_of_lookahead hlook) htakes,
          .more hstep haccepts⟩
    | case3 state stream token seen hlook tree hstep =>
        cases h
        exact ⟨[token], .cons (TokenStream.next_of_lookahead hlook) (.nil _), .last hstep⟩
    | case4 => simp at h
    | case5 => simp at h
  · rintro ⟨tokens, htakes, haccepts⟩
    induction haccepts generalizing stream with
    | last hstep =>
        cases htakes with
        | cons hnext htail =>
            cases htail
            obtain ⟨seen, hlook, rfl⟩ := TokenStream.lookahead_of_next hnext
            rw [run_eq, hlook]
            simp only [hstep]
    | more hstep _ ih =>
        cases htakes with
        | cons hnext htail =>
            obtain ⟨seen, hlook, rfl⟩ := TokenStream.lookahead_of_next hnext
            rw [run_eq, hlook]
            simpa only [hstep] using ih htail

end TinyScript
