import TinyScript.Proofs.Program.RoundTrip
import TinyScript.Proofs.Program.WellFormed

/-!
# The grammar

The sentence of a well-formed tree leads a parse from any place in which the tree is missing to that
place filled (`Statement.leads`). It takes no token of what follows, since no token but the last of
a sentence completes it. So the parser reads every well-formed tree from its sentence, whatever
stands behind it, and reads nothing else, and no two trees share a sentence or the start of one
(`parser_reads_exactly_its_grammar`).
-/

namespace TinyScript

variable {goal : Goal}

/-- Taking the tokens one after the other leads from one stage of a parse to another. -/
inductive Progress.Leads : Progress goal → List Token → Progress goal → Prop where
  | nil (progress : Progress goal) : Leads progress [] progress
  | cons {state : ParseState goal} {token : Token} {tokens : List Token}
      {last : Progress goal} (htail : Leads (state.step token) tokens last) :
      Leads (.more state) (token :: tokens) last

namespace Progress.Leads

theorem trans {first middle last : Progress goal} {tokens others : List Token}
    (h : first.Leads tokens middle) (hnext : middle.Leads others last) :
    first.Leads (tokens ++ others) last := by
  induction h with
  | nil => exact hnext
  | cons _ ih => exact .cons (ih hnext)

/-- One token, and what it leads to. -/
theorem of_step {state : ParseState goal} {token : Token} {tokens : List Token}
    {middle last : Progress goal} (hstep : state.step token = middle)
    (h : middle.Leads tokens last) : (more state).Leads (token :: tokens) last :=
  .cons (hstep ▸ h)

theorem single {state : ParseState goal} {token : Token} {last : Progress goal}
    (hstep : state.step token = last) : (more state).Leads [token] last :=
  of_step hstep (.nil last)

theorem accepts {state : ParseState goal} {tokens : List Token} {tree : goal.Tree}
    (h : (more state).Leads tokens (complete tree)) : state.Accepts tokens tree := by
  induction tokens generalizing state with
  | nil => cases h
  | cons token tokens ih =>
      cases h with
      | cons htail =>
          rcases hstep : state.step token with next | whole | error | error
          · rw [hstep] at htail
            exact .more hstep (ih htail)
          · rw [hstep] at htail
            cases htail
            exact .last hstep
          · rw [hstep] at htail
            cases htail
          · rw [hstep] at htail
            cases htail

/-- Where a parse is complete, and with which tree, does not depend on the tokens behind. -/
theorem unique {first : Progress goal} {tokens others more rest : List Token}
    {tree other : goal.Tree} (h : first.Leads tokens (complete tree))
    (hother : first.Leads others (complete other)) (heq : tokens ++ more = others ++ rest) :
    tree = other ∧ more = rest := by
  generalize hlast : complete tree = last at h
  induction h generalizing others with
  | nil =>
      subst hlast
      cases hother
      exact ⟨rfl, heq⟩
  | cons _ ih =>
      cases hother with
      | cons hrest =>
          injection heq with hhead htail
          subst hhead
          exact ih hrest htail hlast

end Progress.Leads

/-! ## The first token of a sentence -/

theorem Token.spelling_ne_of_kind {token : Token} {spelling : String} {kind : TokenKind}
    (h : token.kind = kind) (hspelling : TokenKind.classify spelling ≠ kind) :
    token.spelling ≠ spelling := by
  rintro rfl
  exact hspelling h

theorem Token.spelling_ne_of_isSimple {token : Token} {spelling : String}
    (h : token.isSimple = true) (hspelling : Token.isSimple ⟨spelling⟩ = false) :
    token.spelling ≠ spelling := by
  rintro rfl
  exact Bool.false_ne_true (hspelling.symm.trans h)

/-- A token that closes no list and no call begins an expression, or is wrong. -/
theorem ExprPlace.step_eq_begin {place : ExprPlace goal} {token : Token}
    (hlist : token.spelling ≠ "]") (hcall : token.spelling ≠ ")") :
    place.step token = place.begin token := by
  cases place with
  | element place before => rw [step, if_neg hlist]
  | argument place operator before => rw [step, if_neg hcall]
  | _ => rfl

theorem ExprPlace.step_of_isSimple {place : ExprPlace goal} {token : Token}
    (h : token.isSimple = true) : place.step token = place.fill (.simple token) := by
  have hkind : token.kind = .identifier ∨ token.kind.isLiteral := by
    simpa [Token.isSimple] using h
  rw [step_eq_begin (Token.spelling_ne_of_isSimple h (by decide))
    (Token.spelling_ne_of_isSimple h (by decide)), begin,
    if_neg (Token.spelling_ne_of_isSimple h (by decide)),
    if_neg (Token.spelling_ne_of_isSimple h (by decide)), if_pos hkind]

theorem StatementPlace.step_eq_begin {place : StatementPlace goal} {token : Token}
    (h : token.spelling ≠ "\x7d") : place.step token = place.begin token := by
  cases place with
  | whole => rfl
  | member place before => rw [step, if_neg h]

theorem StatementPlace.step_of_isName {place : StatementPlace goal} {token : Token}
    (h : token.isName = true) : place.step token = .more (.equalsSign place token) := by
  have hkind : token.kind = .identifier := by simpa [Token.isName] using h
  rw [step_eq_begin (Token.spelling_ne_of_kind hkind (by decide)), begin]
  split
  case h_8 => rw [if_pos hkind, place.beginAssignment_of_identifier hkind]
  all_goals
    next hword => exact (Token.spelling_ne_of_kind hkind (by decide) hword).elim

/-! ## Sentences of expressions -/

mutual

/-- The sentence of an expression fills the place in which the expression is missing. -/
theorem Expr.leads (place : ExprPlace goal) :
    ∀ expr : Expr, expr.wellFormed = true →
      (Progress.more (.expression place)).Leads expr.tokens (place.fill expr)
  | .simple token, h => .single (ExprPlace.step_of_isSimple h)
  | .list elements, h => by
      have helements := Expr.leads_all (.element place) (fun _ _ => rfl) elements [] h
      rw [List.append_nil] at helements
      have hclose : (ParseState.expression (.element place elements.reverse)).step ⟨"]"⟩ =
          place.fill (.list elements) := by
        rw [ParseState.step, ExprPlace.step, if_pos rfl, List.reverse_reverse]
      refine .of_step (ExprPlace.step_eq_begin (by decide) (by decide)) ?_
      exact helements.trans (.single hclose)
  | .call operator arguments, h => by
      rw [Expr.wellFormed, Bool.and_eq_true] at h
      have harguments :=
        Expr.leads_all (.argument place operator) (fun _ _ => rfl) arguments [] h.2
      rw [List.append_nil] at harguments
      have hhead : (ParseState.operator place).step operator =
          .more (.expression (.argument place operator [])) := by
        rw [ParseState.step, if_pos h.1]
      have hclose : (ParseState.expression
            (.argument place operator arguments.reverse)).step ⟨")"⟩ =
          place.fill (.call operator arguments) := by
        rw [ParseState.step, ExprPlace.step, if_pos rfl, List.reverse_reverse]
      refine .of_step (ExprPlace.step_eq_begin (by decide) (by decide)) ?_
      exact .of_step hhead (harguments.trans (.single hclose))

/-- The sentences of expressions lead on in a list or a call, which stays open. -/
theorem Expr.leads_all (into : List Expr → ExprPlace goal)
    (hinto : ∀ before expr, (into before).fill expr = .more (.expression (into (expr :: before)))) :
    ∀ (exprs before : List Expr), Expr.wellFormedAll exprs = true →
      (Progress.more (.expression (into before))).Leads (Expr.tokensAll exprs)
        (.more (.expression (into (exprs.reverse ++ before))))
  | [], before, _ => .nil _
  | expr :: exprs, before, h => by
      rw [Expr.wellFormedAll, Bool.and_eq_true] at h
      have hfirst := Expr.leads (into before) expr h.1
      rw [hinto] at hfirst
      have hrest := Expr.leads_all into hinto exprs (expr :: before) h.2
      rw [List.reverse_cons, List.append_assoc]
      exact hfirst.trans hrest

end

/-! ## Sentences of statements -/

theorem leads_parameters (place : StatementPlace goal) (name : Token)
    (parameters before : List Token) (h : parameters.all Token.isName = true) :
    (Progress.more (.parameter place name before)).Leads (parameters ++ [⟨")"⟩])
      (.more (.brace (.functionBody place name (before.reverse ++ parameters)))) := by
  induction parameters generalizing before with
  | nil =>
      apply Progress.Leads.single
      rw [ParseState.step, if_pos rfl, List.append_nil]
  | cons parameter parameters ih =>
      rw [List.all_cons, Bool.and_eq_true] at h
      have hkind : parameter.kind = .identifier := by simpa [Token.isName] using h.1
      have hstep : (ParseState.parameter place name before).step parameter =
          .more (.parameter place name (parameter :: before)) := by
        rw [ParseState.step, if_neg (Token.spelling_ne_of_kind hkind (by decide)), expectName,
          if_pos hkind]
      have hrest := ih (parameter :: before) h.2
      rw [List.reverse_cons, List.append_assoc] at hrest
      exact .of_step hstep hrest

theorem leads_functionName {place : StatementPlace goal} {name : Token}
    (h : name.isName = true) :
    (ParseState.functionName place).step name = .more (.parameterList place name) := by
  have hkind : name.kind = .identifier := by simpa [Token.isName] using h
  rw [ParseState.step, expectName, if_pos hkind]

theorem leads_braced {place : BlockPlace goal} {body : Block}
    (h : (Progress.more (.statement (.member place []))).Leads
      (Statement.tokensAll body ++ [⟨"\x7d"⟩]) (place.fill body)) :
    (Progress.more (.brace place)).Leads (bracedTokens (Statement.tokensAll body))
      (place.fill body) :=
  .of_step rfl h

mutual

/-- The sentence of a statement fills the place in which the statement is missing. -/
theorem Statement.leads (place : StatementPlace goal) :
    ∀ statement : Statement, statement.wellFormed = true →
      (Progress.more (.statement place)).Leads statement.tokens (place.fill statement)
  | .assign target value, h => by
      rw [Statement.wellFormed, Bool.and_eq_true] at h
      refine .of_step (StatementPlace.step_of_isName h.1) ?_
      exact .of_step rfl (Expr.leads (.assigned place target) value h.2)
  | .block body, h => by
      refine .of_step (StatementPlace.step_eq_begin (by decide)) ?_
      exact Statement.leads_members (.statement place) [] body h
  | .ifElse condition thenBlock elseBlock, h => by
      simp only [Statement.wellFormed, Bool.and_eq_true] at h
      have hthen := Statement.leads_members (.thenBranch place condition) [] thenBlock h.1.2
      have helse :=
        Statement.leads_members (.elseBranch place condition thenBlock) [] elseBlock h.2
      rw [Statement.tokens, List.cons_append, List.cons_append, List.append_assoc]
      refine .of_step (StatementPlace.step_eq_begin (by decide)) ?_
      refine (Expr.leads (.ifCondition place) condition h.1.1).trans ?_
      exact (leads_braced hthen).trans (.of_step rfl (leads_braced helse))
  | .while condition body, h => by
      rw [Statement.wellFormed, Bool.and_eq_true] at h
      refine .of_step (StatementPlace.step_eq_begin (by decide)) ?_
      refine (Expr.leads (.whileCondition place) condition h.1).trans ?_
      exact leads_braced (Statement.leads_members (.whileBody place condition) [] body h.2)
  | .repeat count body, h => by
      rw [Statement.wellFormed, Bool.and_eq_true] at h
      refine .of_step (StatementPlace.step_eq_begin (by decide)) ?_
      refine (Expr.leads (.repeatCount place) count h.1).trans ?_
      exact leads_braced (Statement.leads_members (.repeatBody place count) [] body h.2)
  | .func name parameters body, h => by
      simp only [Statement.wellFormed, Bool.and_eq_true] at h
      have hparameters := leads_parameters place name parameters [] h.1.2
      have hbody :=
        leads_braced (Statement.leads_members (.functionBody place name parameters) [] body h.2)
      have htokens : (Statement.func name parameters body).tokens = ⟨"func"⟩ :: name :: ⟨"("⟩ ::
          ((parameters ++ [⟨")"⟩]) ++ bracedTokens (Statement.tokensAll body)) := by
        simp [Statement.tokens]
      rw [htokens]
      refine .of_step (StatementPlace.step_eq_begin (by decide)) ?_
      refine .of_step (leads_functionName h.1.1) ?_
      exact .of_step rfl (hparameters.trans hbody)
  | .return value, h =>
      .of_step (StatementPlace.step_eq_begin (by decide)) (Expr.leads (.returned place) value h)
  | .print value, h =>
      .of_step (StatementPlace.step_eq_begin (by decide)) (Expr.leads (.printed place) value h)

/-- The sentences of statements and a closing brace fill the place of a block. -/
theorem Statement.leads_members (place : BlockPlace goal) :
    ∀ before statements : List Statement, Statement.wellFormedAll statements = true →
      (Progress.more (.statement (.member place before))).Leads
        (Statement.tokensAll statements ++ [⟨"\x7d"⟩]) (place.fill (before.reverse ++ statements))
  | before, [], _ => by
      apply Progress.Leads.single
      rw [ParseState.step, StatementPlace.step, if_pos rfl, List.append_nil]
  | before, statement :: statements, h => by
      rw [Statement.wellFormedAll, Bool.and_eq_true] at h
      have hfirst := Statement.leads (.member place before) statement h.1
      have hrest := Statement.leads_members place (statement :: before) statements h.2
      rw [List.reverse_cons, List.append_assoc] at hrest
      rw [Statement.tokensAll, List.append_assoc]
      exact hfirst.trans hrest

end

theorem Goal.leads : ∀ (goal : Goal) (tree : goal.Tree), goal.wellFormed tree = true →
    (Progress.more goal.start).Leads (goal.tokens tree) (.complete tree)
  | .statement, tree, h => Statement.leads .whole tree h
  | .expression, tree, h => Expr.leads .whole tree h
  | .block, tree, h => leads_braced (Statement.leads_members .whole [] tree h)

/-! ## Reading exactly the sentences -/

/-- The trees that are read are the well-formed ones, each from its sentence. -/
structure Goal.ReadBy (goal : Goal) (parse : TokenStream → Parsed goal.Tree) : Prop where
  /-- A sentence is read whatever stands behind it, and what stands behind it is left. -/
  complete {tree : goal.Tree} {stream : TokenStream} {more : List Token}
    {error : Option StreamError} : goal.wellFormed tree = true →
      stream.drain = (goal.tokens tree ++ more, error) →
        ∃ rest, parse stream = (.ok tree, rest) ∧ rest.drain = (more, error)
  /-- What is read is well-formed, and exactly its sentence has been taken. -/
  sound {tree : goal.Tree} {stream rest : TokenStream} : parse stream = (.ok tree, rest) →
    goal.wellFormed tree = true ∧ stream.Takes (goal.tokens tree) rest
  /-- No other tree has the same sentence or one that starts with it. -/
  unambiguous {tree other : goal.Tree} {more rest : List Token} :
    goal.wellFormed tree = true → goal.wellFormed other = true →
      goal.tokens tree ++ more = goal.tokens other ++ rest → tree = other ∧ more = rest

theorem Goal.wellFormed_start (goal : Goal) : goal.start.wellFormed = true := by
  cases goal <;> rfl

theorem Goal.readBy_run (goal : Goal) : goal.ReadBy goal.start.run where
  complete htree hdrain := run_of_drain (goal.leads _ htree).accepts hdrain
  sound hrun := by
    obtain ⟨tokens, htakes, haccepts⟩ := ParseState.run_eq_ok_iff.1 hrun
    rw [haccepts.tokens_start]
    exact ⟨haccepts.wellFormed goal.wellFormed_start, htakes⟩
  unambiguous htree hother heq := (goal.leads _ htree).unique (goal.leads _ hother) heq

/-- The parser reads the sentences of the well-formed statements, expressions and blocks, each as
the one tree that has it and without a look at what follows, and it reads nothing else. -/
theorem parser_reads_exactly_its_grammar :
    Goal.statement.ReadBy parseStatement ∧ Goal.expression.ReadBy parseExpression ∧
      Goal.block.ReadBy parseBlock :=
  ⟨Goal.statement.readBy_run, Goal.expression.readBy_run, Goal.block.readBy_run⟩

/-- A function whose body is a choice between a list and nothing. -/
def choosingFunction : Statement :=
  .func ⟨"f"⟩ [⟨"a"⟩] [.ifElse (.call ⟨"<"⟩ [.simple ⟨"a"⟩, .simple ⟨"3"⟩])
    [.return (.list [.simple ⟨"a"⟩, .simple ⟨"'x'"⟩])] []]

theorem function_read_before_rubbish :
    choosingFunction.wellFormed = true ∧
      (∃ rest, parseStatement (.ofText
          "func f(a)\x7bif(< a 3)\x7breturn[a 'x']\x7d else\x7b\x7d\x7d\n\x7d else \"open") =
        (.ok choosingFunction, rest) ∧
          rest.drain = ([⟨"\x7d"⟩, ⟨"else"⟩, ⟨"\"open"⟩], none)) ∧
      ∀ other : Statement, other.wellFormed = true →
        other.tokens = choosingFunction.tokens → other = choosingFunction := by
  obtain ⟨hstatement, -, -⟩ := parser_reads_exactly_its_grammar
  have hwell : Goal.statement.wellFormed choosingFunction = true := by decide +kernel
  refine ⟨hwell, hstatement.complete hwell (by decide +kernel), ?_⟩
  intro other hother htokens
  have heq : Goal.statement.tokens other ++ [] = Goal.statement.tokens choosingFunction ++ [] :=
    congrArg (· ++ []) htokens
  exact (hstatement.unambiguous hother hwell heq).1

end TinyScript
