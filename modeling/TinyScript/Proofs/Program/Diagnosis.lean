import TinyScript.Proofs.Program.Descent
import TinyScript.Proofs.Program.Sequence

/-!
# Where a parse fails

From every state of a parse some tokens lead to a complete tree (`ParseState.completes`). So what a
parse has read is the start of a sentence as long as no token is wrong. A token that is wrong
continues no sentence, since the sentence of a well-formed tree leads through the same states
(`Progress.Leads.tail`). So an error is found at the earliest token that shows it, and the end of the
tokens is an error exactly where a sentence could have gone on (`errors_found_at_first_wrong_token`).
-/

namespace TinyScript

/-! ## Starts of sentences -/

/-- The tokens are the sentence of a well-formed tree. -/
def Goal.IsSentence (goal : Goal) (tokens : List Token) : Prop :=
  ∃ tree, goal.wellFormed tree = true ∧ goal.tokens tree = tokens

/-- Some sentence starts with the tokens, or is no longer than them. -/
def Goal.StartsSentence (goal : Goal) (tokens : List Token) : Prop :=
  ∃ more, goal.IsSentence (tokens ++ more)

/-- Some sentence starts with the tokens and goes on behind them. -/
def Goal.NeedsMore (goal : Goal) (tokens : List Token) : Prop :=
  ∃ more, more ≠ [] ∧ goal.IsSentence (tokens ++ more)

/-- The tokens up to this one are the start of a sentence, and with this one they are not. -/
def Goal.IsWrong (goal : Goal) (before : List Token) (token : Token) : Prop :=
  goal.NeedsMore before ∧ ¬ goal.StartsSentence (before ++ [token])

variable {goal : Goal}

theorem Goal.StartsSentence.of_start {tokens others : List Token}
    (h : goal.StartsSentence others) (hstart : tokens <+: others) :
    goal.StartsSentence tokens := by
  obtain ⟨more, hmore⟩ := h
  obtain ⟨middle, rfl⟩ := hstart
  exact ⟨middle ++ more, by rwa [← List.append_assoc]⟩

theorem Goal.NeedsMore.startsSentence {tokens : List Token} (h : goal.NeedsMore tokens) :
    goal.StartsSentence tokens := by
  obtain ⟨more, _, hmore⟩ := h
  exact ⟨more, hmore⟩

/-- Tokens behind which a sentence goes on do not start with a whole sentence. -/
theorem Goal.NeedsMore.not_isSentence {tokens sentence : List Token} (h : goal.NeedsMore tokens)
    (hsentence : goal.IsSentence sentence) : ¬ sentence <+: tokens := by
  rintro ⟨middle, rfl⟩
  obtain ⟨more, hne, other, hother, htokens⟩ := h
  obtain ⟨tree, htree, rfl⟩ := hsentence
  have heq : goal.tokens other ++ [] = goal.tokens tree ++ (middle ++ more) := by
    rw [List.append_nil, htokens, List.append_assoc]
  have hnil := (goal.readBy_run.unambiguous hother htree heq).2
  exact hne (List.append_eq_nil_iff.1 hnil.symm).2

/-! ## Completing a parse -/

/-- Some tokens lead to a complete tree. -/
def Progress.Completes (progress : Progress goal) : Prop :=
  ∃ tokens tree, progress.Leads tokens (.complete tree)

theorem Progress.Completes.of_step {state : ParseState goal} (token : Token)
    {next : Progress goal} (hstep : state.step token = next) (h : next.Completes) :
    (more state).Completes := by
  obtain ⟨tokens, tree, hleads⟩ := h
  exact ⟨token :: tokens, tree, .of_step hstep hleads⟩

/-- A block can be left empty. -/
theorem BlockPlace.completes_brace {place : BlockPlace goal} (h : (place.fill []).Completes) :
    (Progress.more (.brace place)).Completes := by
  have hclose : (Progress.more (.statement (.member place []))).Completes :=
    .of_step ⟨"\x7d"⟩ rfl h
  exact .of_step ⟨"\x7b"⟩ rfl hclose

mutual

/-- A place in which a statement is missing can be completed with any statement. -/
theorem StatementPlace.completes_fill {goal : Goal} :
    ∀ (place : StatementPlace goal) (statement : Statement), (place.fill statement).Completes
  | .whole, statement => ⟨[], statement, .nil _⟩
  | .member place before, statement =>
      .of_step ⟨"\x7d"⟩ rfl (BlockPlace.completes_fill place (statement :: before).reverse)

/-- A place in which a block is missing can be completed with any block. -/
theorem BlockPlace.completes_fill {goal : Goal} :
    ∀ (place : BlockPlace goal) (block : Block), (place.fill block).Completes
  | .whole, block => ⟨[], block, .nil _⟩
  | .statement place, block => StatementPlace.completes_fill place (.block block)
  | .thenBranch place condition, block =>
      .of_step ⟨"else"⟩ rfl <| BlockPlace.completes_brace <|
        StatementPlace.completes_fill place (.ifElse condition block [])
  | .elseBranch place condition thenBlock, block =>
      StatementPlace.completes_fill place (.ifElse condition thenBlock block)
  | .whileBody place condition, block =>
      StatementPlace.completes_fill place (.while condition block)
  | .repeatBody place count, block => StatementPlace.completes_fill place (.repeat count block)
  | .functionBody place name parameters, block =>
      StatementPlace.completes_fill place (.func name parameters block)

end

/-- A place in which an expression is missing can be completed with any expression. -/
theorem ExprPlace.completes_fill {goal : Goal} :
    ∀ (place : ExprPlace goal) (expr : Expr), (place.fill expr).Completes
  | .whole, expr => ⟨[], expr, .nil _⟩
  | .element place before, expr =>
      .of_step ⟨"]"⟩ rfl (completes_fill place (.list (expr :: before).reverse))
  | .argument place operator before, expr =>
      .of_step ⟨")"⟩ rfl (completes_fill place (.call operator (expr :: before).reverse))
  | .assigned place target, expr => place.completes_fill (.assign target expr)
  | .printed place, expr => place.completes_fill (.print expr)
  | .returned place, expr => place.completes_fill (.return expr)
  | .ifCondition place, expr =>
      BlockPlace.completes_brace (BlockPlace.completes_fill (.thenBranch place expr) [])
  | .whileCondition place, expr =>
      BlockPlace.completes_brace (BlockPlace.completes_fill (.whileBody place expr) [])
  | .repeatCount place, expr =>
      BlockPlace.completes_brace (BlockPlace.completes_fill (.repeatBody place expr) [])

theorem ExprPlace.completes (place : ExprPlace goal) :
    (Progress.more (.expression place)).Completes :=
  .of_step ⟨"true"⟩ (step_of_isSimple (by decide)) (place.completes_fill (.simple ⟨"true"⟩))

theorem BlockPlace.completes (place : BlockPlace goal) :
    (Progress.more (.brace place)).Completes :=
  completes_brace (place.completes_fill [])

/-- No state of a parse is a dead end. -/
theorem ParseState.completes (state : ParseState goal) : (Progress.more state).Completes := by
  cases state with
  | expression place => exact place.completes
  | operator place =>
      exact .of_step ⟨"+"⟩ rfl (ExprPlace.completes (.argument place ⟨"+"⟩ []))
  | statement place =>
      refine .of_step ⟨"\x7b"⟩ (StatementPlace.step_eq_begin (by decide)) ?_
      exact .of_step ⟨"\x7d"⟩ rfl (place.completes_fill (.block []))
  | brace place => exact place.completes
  | elseWord place condition thenBlock =>
      exact .of_step ⟨"else"⟩ rfl (BlockPlace.completes (.elseBranch place condition thenBlock))
  | equalsSign place target =>
      exact .of_step ⟨"="⟩ rfl (ExprPlace.completes (.assigned place target))
  | functionName place =>
      refine .of_step ⟨"f"⟩ (leads_functionName (by decide)) ?_
      refine .of_step ⟨"("⟩ rfl ?_
      exact .of_step ⟨")"⟩ rfl (BlockPlace.completes (.functionBody place ⟨"f"⟩ []))
  | parameterList place name =>
      refine .of_step ⟨"("⟩ rfl ?_
      exact .of_step ⟨")"⟩ rfl (BlockPlace.completes (.functionBody place name []))
  | parameter place name before =>
      exact .of_step ⟨")"⟩ rfl (BlockPlace.completes (.functionBody place name before.reverse))

/-- What has been read on the way to a state is the start of a sentence that goes on. -/
theorem ParseState.needsMore {state : ParseState goal} {tokens : List Token}
    (h : (Progress.more goal.start).Leads tokens (.more state)) : goal.NeedsMore tokens := by
  obtain ⟨more, tree, hmore⟩ := state.completes
  have haccepts := (h.trans hmore).accepts
  refine ⟨more, ?_, tree, haccepts.wellFormed goal.wellFormed_start, haccepts.tokens_start⟩
  rintro rfl
  cases hmore

/-! ## Wrong tokens -/

/-- The error that ends a parse. -/
def Progress.error? : Progress goal → Option SyntaxError
  | .more _ | .complete _ => none
  | .reject error | .refuse error => some error

/-- The tokens that lead through a stage of a parse lead on from there. -/
theorem Progress.Leads.tail {first middle last : Progress goal} {tokens others : List Token}
    (h : first.Leads tokens middle) (hwhole : first.Leads (tokens ++ others) last) :
    middle.Leads others last := by
  induction h with
  | nil => exact hwhole
  | cons _ ih =>
      cases hwhole with
      | cons hrest => exact ih hrest

/-- A token that ends a parse with an error continues no sentence. -/
theorem ParseState.isWrong {state : ParseState goal} {before : List Token} {token : Token}
    {error : SyntaxError} (h : (Progress.more goal.start).Leads before (.more state))
    (herror : (state.step token).error? = some error) : goal.IsWrong before token := by
  refine ⟨needsMore h, ?_⟩
  rintro ⟨more, tree, hwell, htokens⟩
  have hleads := goal.leads tree hwell
  rw [htokens, List.append_assoc] at hleads
  cases h.tail hleads with
  | cons hrest =>
      rcases hstep : state.step token with next | whole | error | error
      · simp [hstep, Progress.error?] at herror
      · simp [hstep, Progress.error?] at herror
      · rw [hstep] at hrest
        cases hrest
      · rw [hstep] at hrest
        cases hrest

/-! ## What the errors say -/

/-- The token that an error names. -/
def SyntaxError.token? : SyntaxError → Option String
  | unexpectedEnd => none
  | unknownStatement token | unknownValue token | illegalAssignmentTarget token => some token
  | malformed _ _ found | expectedOperator found | expectedIdentifier _ found => some found

/-- The error names the token, and it is not about the target of an assignment. -/
def SyntaxError.Names (error : SyntaxError) (token : Token) : Prop :=
  error.token? = some token.spelling ∧ ∀ target, error ≠ illegalAssignmentTarget target

/-- If the token is found to be wrong then the error names it. -/
def Progress.Reports (token : Token) (progress : Progress goal) : Prop :=
  ∀ error, progress.error? = some error → error.Names token

theorem StatementPlace.reports_fill (token : Token) (place : StatementPlace goal)
    (statement : Statement) : (place.fill statement).Reports token := by
  intro error herror
  cases place <;> cases herror

theorem ExprPlace.reports_fill (token : Token) (place : ExprPlace goal) (expr : Expr) :
    (place.fill expr).Reports token := by
  cases place with
  | assigned place target => exact place.reports_fill token _
  | printed place => exact place.reports_fill token _
  | returned place => exact place.reports_fill token _
  | _ =>
      intro error herror
      cases herror

theorem BlockPlace.reports_fill (token : Token) (place : BlockPlace goal) (block : Block) :
    (place.fill block).Reports token := by
  cases place with
  | whole =>
      intro error herror
      cases herror
  | thenBranch place condition =>
      intro error herror
      cases herror
  | _ => exact StatementPlace.reports_fill token _ _

theorem reports_more (token : Token) (state : ParseState goal) :
    (Progress.more state).Reports token := by
  intro error herror
  cases herror

theorem reports_reject {token : Token} {error : SyntaxError} (h : error.Names token) :
    (Progress.reject error : Progress goal).Reports token := by
  rintro _ ⟨⟩
  exact h

theorem ExprPlace.reports_begin (place : ExprPlace goal) (token : Token) :
    (place.begin token).Reports token := by
  unfold begin
  split
  · exact reports_more _ _
  · split
    · exact reports_more _ _
    · split
      · exact place.reports_fill token _
      · exact reports_reject ⟨rfl, by simp⟩

theorem ExprPlace.reports_step (place : ExprPlace goal) (token : Token) :
    (place.step token).Reports token := by
  cases place with
  | element place before =>
      rw [step]
      split
      · exact place.reports_fill token _
      · exact reports_begin _ token
  | argument place operator before =>
      rw [step]
      split
      · exact place.reports_fill token _
      · exact reports_begin _ token
  | _ => exact reports_begin _ token

theorem StatementPlace.reports_begin (place : StatementPlace goal) (token : Token) :
    (place.begin token).Reports token := by
  unfold begin
  split
  case h_8 =>
    split
    · next hkind =>
        -- Only an identifier announces an assignment, so its target is never found to be illegal.
        rw [place.beginAssignment_of_identifier hkind]
        exact reports_more _ _
    · rintro _ ⟨⟩
      exact ⟨rfl, by simp⟩
  all_goals exact reports_more _ _

theorem StatementPlace.reports_step (place : StatementPlace goal) (token : Token) :
    (place.step token).Reports token := by
  cases place with
  | whole => exact reports_begin _ token
  | member place before =>
      rw [step]
      split
      · exact place.reports_fill token _
      · exact reports_begin _ token

theorem reports_expectWord (construct expected : String) (token : Token)
    (state : ParseState goal) : (expectWord construct expected token state).Reports token := by
  unfold expectWord
  split
  · exact reports_more _ _
  · exact reports_reject ⟨rfl, by simp⟩

theorem reports_expectName (what : String) (token : Token) (state : ParseState goal) :
    (expectName what token state).Reports token := by
  unfold expectName
  split
  · exact reports_more _ _
  · exact reports_reject ⟨rfl, by simp⟩

/-- Whatever is wrong with a token, the error names it. -/
theorem ParseState.reports_step (state : ParseState goal) (token : Token) :
    (state.step token).Reports token := by
  cases state with
  | expression place => exact place.reports_step token
  | statement place => exact place.reports_step token
  | operator place =>
      rw [step]
      split
      · exact reports_more _ _
      · exact reports_reject ⟨rfl, by simp⟩
  | brace place => exact reports_expectWord _ _ token _
  | elseWord place condition thenBlock => exact reports_expectWord _ _ token _
  | equalsSign place target => exact reports_expectWord _ _ token _
  | functionName place => exact reports_expectName _ token _
  | parameterList place name => exact reports_expectWord _ _ token _
  | parameter place name before =>
      rw [step]
      split
      · exact reports_more _ _
      · exact reports_expectName _ token _

/-! ## How a parse ends -/

/-- A parse completes a tree, or takes all tokens that are left, or stops at a wrong one. -/
theorem ParseState.run_cases (state : ParseState goal) {stream : TokenStream} {tokens : List Token}
    {error : Option StreamError} (h : stream.drain = (tokens, error)) :
    (∃ tree, (state.run stream).1 = .ok tree) ∨
      ((state.run stream).1 = .error (error.getD .endOfInput).toError ∧
        ∃ last, (Progress.more state).Leads tokens (.more last)) ∨
      ∃ before token after last cause, tokens = before ++ token :: after ∧
        (Progress.more state).Leads before (.more last) ∧
        (last.step token).error? = some cause ∧
        (state.run stream).1 = .error (.parsing cause) := by
  fun_induction ParseState.run state stream generalizing tokens with
  | case1 state stream cause seen hlook =>
      rw [TokenStream.drain_of_lookahead_error hlook] at h
      cases h
      refine .inr (.inl ⟨?_, state, .nil _⟩)
      cases cause <;> rfl
  | case2 state stream token seen hlook next hstep _ ih =>
      rw [TokenStream.drain_of_next (TokenStream.next_of_lookahead hlook)] at h
      cases h
      rcases ih rfl with hok | ⟨hend, last, hleads⟩ | ⟨before, other, after, last, cause, htokens,
        hleads, herror, hrun⟩
      · exact .inl hok
      · exact .inr (.inl ⟨hend, last, .of_step hstep hleads⟩)
      · exact .inr (.inr ⟨token :: before, other, after, last, cause,
          congrArg (List.cons token) htokens, .of_step hstep hleads, herror, hrun⟩)
  | case3 state stream token seen hlook tree hstep => exact .inl ⟨tree, rfl⟩
  | case4 state stream token seen hlook cause hstep =>
      rw [TokenStream.drain_of_next (TokenStream.next_of_lookahead hlook)] at h
      cases h
      exact .inr (.inr ⟨[], token, _, state, cause, rfl, .nil _, by rw [hstep]; rfl, rfl⟩)
  | case5 state stream token seen hlook cause hstep =>
      rw [TokenStream.drain_of_next (TokenStream.next_of_lookahead hlook)] at h
      cases h
      exact .inr (.inr ⟨[], token, _, state, cause, rfl, .nil _, by rw [hstep]; rfl, rfl⟩)

/-! ## The three verdicts -/

/-- A parse result tells what the tokens are: they start with a sentence, or they are the start of
one that goes on, or one of them is wrong. -/
structure Goal.Diagnoses (goal : Goal) (tokens : List Token) (result : Except Error goal.Tree) :
    Prop where
  ok_iff : (∃ tree, result = .ok tree) ↔ ∃ sentence, goal.IsSentence sentence ∧ sentence <+: tokens
  end_iff : result = .error (.parsing .unexpectedEnd) ↔ goal.NeedsMore tokens
  wrong_iff : (∃ error, result = .error error ∧ error ≠ .parsing .unexpectedEnd) ↔
    ∃ before token, before ++ [token] <+: tokens ∧ goal.IsWrong before token
  /-- Any other error is about a wrong token. -/
  names {error : Error} : result = .error error → error ≠ .parsing .unexpectedEnd →
    ∃ cause before token, error = .parsing cause ∧ cause.Names token ∧
      before ++ [token] <+: tokens ∧ goal.IsWrong before token

section

variable {tokens before sentence : List Token} {token : Token} {stream : TokenStream}

/-- There is no wrong token before the end of a sentence. -/
theorem Goal.IsWrong.not_isSentence (h : goal.IsWrong before token)
    (hwrong : before ++ [token] <+: tokens) (hsentence : goal.IsSentence sentence) :
    ¬ sentence <+: tokens := by
  intro hstart
  have hstarts : goal.StartsSentence sentence := ⟨[], by rwa [List.append_nil]⟩
  rcases List.prefix_or_prefix_of_prefix hstart hwrong with hshort | hlong
  · rcases List.prefix_concat_iff.1 hshort with rfl | hbefore
    · exact h.2 hstarts
    · exact h.1.not_isSentence hsentence hbefore
  · exact h.2 (hstarts.of_start hlong)

/-- There is no wrong token in the start of a sentence. -/
theorem Goal.IsWrong.not_needsMore (h : goal.IsWrong before token)
    (hwrong : before ++ [token] <+: tokens) : ¬ goal.NeedsMore tokens :=
  fun hmore => h.2 (hmore.startsSentence.of_start hwrong)

theorem SyntaxError.Names.ne_unexpectedEnd {cause : SyntaxError} (h : cause.Names token) :
    Error.parsing cause ≠ .parsing .unexpectedEnd := by
  rintro ⟨⟩
  cases h.1

/-- Each end of a parse, with what it says about the tokens. -/
theorem Goal.run_start_cases (goal : Goal) (h : stream.drain = (tokens, none)) :
    (∃ tree sentence, (goal.start.run stream).1 = .ok tree ∧ goal.IsSentence sentence ∧
        sentence <+: tokens) ∨
      ((goal.start.run stream).1 = .error (.parsing .unexpectedEnd) ∧ goal.NeedsMore tokens) ∨
      ∃ cause before token, (goal.start.run stream).1 = .error (.parsing cause) ∧
        cause.Names token ∧ before ++ [token] <+: tokens ∧ goal.IsWrong before token := by
  rcases goal.start.run_cases h with ⟨tree, hok⟩ | ⟨hend, last, hleads⟩ |
    ⟨before, token, after, last, cause, rfl, hleads, herror, hrun⟩
  · obtain ⟨hwell, htakes⟩ := goal.readBy_run.sound (Prod.ext hok rfl)
    have htokens := congrArg Prod.fst (htakes.drain_eq.symm.trans h)
    exact .inl ⟨tree, goal.tokens tree, hok, ⟨tree, hwell, rfl⟩, _, htokens⟩
  · exact .inr (.inl ⟨hend, ParseState.needsMore hleads⟩)
  · refine .inr (.inr ⟨cause, before, token, hrun, last.reports_step token cause herror, ?_,
      ParseState.isWrong hleads herror⟩)
    exact ⟨after, by simp⟩

theorem Goal.diagnoses_run (goal : Goal) (h : stream.drain = (tokens, none)) :
    goal.Diagnoses tokens (goal.start.run stream).1 := by
  rcases goal.run_start_cases h with ⟨tree, sentence, hrun, hsentence, hstart⟩ |
    ⟨hrun, hmore⟩ | ⟨cause, before, token, hrun, hnames, hstart, hwrong⟩
  · refine ⟨?_, ?_, ?_, ?_⟩
    · exact iff_of_true ⟨tree, hrun⟩ ⟨sentence, hsentence, hstart⟩
    · exact iff_of_false (by simp [hrun]) fun hmore => hmore.not_isSentence hsentence hstart
    · refine iff_of_false (by simp [hrun]) ?_
      rintro ⟨before, token, hbefore, hwrong⟩
      exact hwrong.not_isSentence hbefore hsentence hstart
    · intro error herror
      simp [hrun] at herror
  · refine ⟨?_, ?_, ?_, ?_⟩
    · refine iff_of_false (by simp [hrun]) ?_
      rintro ⟨sentence, hsentence, hstart⟩
      exact hmore.not_isSentence hsentence hstart
    · exact iff_of_true hrun hmore
    · refine iff_of_false (by simp [hrun]) ?_
      rintro ⟨before, token, hbefore, hwrong⟩
      exact hwrong.not_needsMore hbefore hmore
    · intro error herror hne
      rw [hrun] at herror
      cases herror
      exact (hne rfl).elim
  · have hother := hnames.ne_unexpectedEnd
    refine ⟨?_, ?_, ?_, ?_⟩
    · refine iff_of_false (by simp [hrun]) ?_
      rintro ⟨sentence, hsentence, hshort⟩
      exact hwrong.not_isSentence hstart hsentence hshort
    · refine iff_of_false ?_ (hwrong.not_needsMore hstart)
      rw [hrun]
      rintro ⟨⟩
      exact hother rfl
    · exact iff_of_true ⟨_, hrun, hother⟩ ⟨before, token, hstart, hwrong⟩
    · intro error herror _
      rw [hrun] at herror
      cases herror
      exact ⟨cause, before, token, rfl, hnames, hstart, hwrong⟩

/-- No parse of any stream finds fault with the target of an assignment. -/
theorem Goal.run_ne_illegalAssignmentTarget (goal : Goal) (stream : TokenStream)
    (target : String) :
    (goal.start.run stream).1 ≠ .error (.parsing (.illegalAssignmentTarget target)) := by
  intro hrun
  have hdrain : stream.drain = (stream.drain.1, stream.drain.2) := rfl
  rcases goal.start.run_cases hdrain with ⟨tree, hok⟩ | ⟨hend, _⟩ |
    ⟨_, token, _, last, cause, _, _, herror, hcause⟩
  · simp [hrun] at hok
  · rw [hrun] at hend
    generalize stream.drain.2.getD .endOfInput = cause at hend
    cases cause <;> cases hend
  · rw [hrun] at hcause
    cases hcause
    exact (last.reports_step token _ herror).2 target rfl

end

/-- From the tokens of a stream that can be read to its end, a parse reads a tree exactly if they
start with a sentence, and it reports the end exactly if they are the start of a sentence that goes
on. Otherwise there is a first token with which they are not the start of a sentence any more, and
the error names it. That a target of an assignment is illegal is never reported, though the function
for assignments takes the target anew and tests it again. -/
theorem errors_found_at_first_wrong_token :
    (∀ (stream : TokenStream) (tokens : List Token), stream.drain = (tokens, none) →
      Goal.statement.Diagnoses tokens (parseStatement stream).1 ∧
        Goal.expression.Diagnoses tokens (parseExpression stream).1 ∧
        Goal.block.Diagnoses tokens (parseBlock stream).1) ∧
      ∀ (stream : TokenStream) (target : String),
        let illegal : Error := .parsing (.illegalAssignmentTarget target)
        ((parseStatement stream).1 ≠ .error illegal ∧ (parseExpression stream).1 ≠ .error illegal ∧
          (parseBlock stream).1 ≠ .error illegal) ∧
        ∀ bound, stream.size < bound →
          (Parser.statement bound stream).1 ≠ .error illegal ∧
            (Parser.expression bound stream).1 ≠ .error illegal ∧
            (Parser.compound (Parser.statement bound) bound stream).1 ≠ .error illegal := by
  constructor
  · intro stream tokens h
    exact ⟨Goal.statement.diagnoses_run h, Goal.expression.diagnoses_run h,
      Goal.block.diagnoses_run h⟩
  · intro stream target illegal
    have hruns : (parseStatement stream).1 ≠ .error illegal ∧
        (parseExpression stream).1 ≠ .error illegal ∧ (parseBlock stream).1 ≠ .error illegal :=
      ⟨Goal.statement.run_ne_illegalAssignmentTarget stream target,
        Goal.expression.run_ne_illegalAssignmentTarget stream target,
        Goal.block.run_ne_illegalAssignmentTarget stream target⟩
    refine ⟨hruns, fun bound hbound => ?_⟩
    obtain ⟨hexpression, hstatement, hblock⟩ := parse_descends hbound
    rwa [hexpression, hstatement, hblock]

/-- A function that breaks off in a call in a list in a block. -/
def brokenText : String := "func f(a) \x7b if (< a 3) \x7b x = [a (+ a"

theorem wrong_brace_named :
    let tokens := tokensOf (brokenText ++ " \x7d \x7d").toList
    Goal.statement.NeedsMore (tokensOf brokenText.toList) ∧
      ∃ before token, token.spelling = "\x7d" ∧ before ++ [token] <+: tokens ∧
        Goal.statement.NeedsMore before ∧
        ¬ Goal.statement.StartsSentence (before ++ [token]) := by
  intro tokens
  obtain ⟨hstatement, -⟩ := errors_found_at_first_wrong_token
  have hbroken := (hstatement (.ofText brokenText) _ (TokenStream.drain_ofText _)).1
  have hwrong :=
    (hstatement (.ofText (brokenText ++ " \x7d \x7d")) _ (TokenStream.drain_ofText _)).1
  have hend : (parseStatement (.ofText brokenText)).1 = .error (.parsing .unexpectedEnd) := by
    decide +kernel
  have herror : (parseStatement (.ofText (brokenText ++ " \x7d \x7d"))).1 =
      .error (.parsing (.unknownValue "\x7d")) := by decide +kernel
  obtain ⟨cause, before, token, hcause, hnames, hstart, hearliest⟩ :=
    hwrong.names herror (by decide)
  cases hcause
  exact ⟨hbroken.end_iff.1 hend, before, token, (Option.some.inj hnames.1).symm, hstart,
    hearliest.1, hearliest.2⟩

end TinyScript
