import TinyScript.Proofs.Program.Grammar
import TinyScript.Proofs.Run.Failures
import TinyScript.Proofs.Run.Namespace
import TinyScript.Proofs.Token.Literals

/-!
# What is parsed is understood

A tree that was parsed holds no word without a meaning: each of its literals denotes a value, and
the head of each call is an operator or an identifier. So is the body of each function, which is
parsed before the function is declared. Only a tree that was built by hand can be evaluated to an
unknown word, and only an identifier can be the name of a function that is not there
(`parsed_programs_understood`).
-/

namespace TinyScript

/-! ## Words of well-formed trees -/

theorem Builtin.exists_named? :
    ∀ spelling ∈ TokenKind.boolOperators ++ TokenKind.mathOperators ++ TokenKind.sequenceOperators,
      (named? spelling).isSome = true := by
  decide

/-- What may stand at the head of a call is an operator or an identifier. -/
theorem Builtin.isSome_named?_of_isCallable {operator : Token}
    (hcallable : operator.kind.isCallable = true) (hname : operator.kind ≠ .identifier) :
    (named? operator.spelling).isSome = true :=
  exists_named? _ (TokenKind.mem_operators_of_classify hcallable hname)

theorem Expr.wellFormed_of_part {expr part : Expr} (h : expr.wellFormed = true)
    (hpart : part ∈ expr.parts) : part.wellFormed = true := by
  cases expr with
  | simple token => cases hpart
  | list elements =>
      rw [wellFormed, wellFormedAll_eq_all, List.all_eq_true] at h
      exact h part hpart
  | call operator arguments =>
      rw [wellFormed, wellFormedAll_eq_all, Bool.and_eq_true, List.all_eq_true] at h
      exact h.2 part hpart

theorem Statement.wellFormed_of_expr {statement : Statement} {expr : Expr}
    (h : statement.wellFormed = true) (hexpr : expr ∈ statement.exprs) :
    expr.wellFormed = true := by
  cases statement <;> simp_all [exprs, wellFormed]

theorem Statement.wellFormed_of_member {statement member : Statement} {body : Block}
    (h : statement.wellFormed = true) (hbody : body ∈ statement.blocks) (hmember : member ∈ body) :
    member.wellFormed = true := by
  have hall : wellFormedAll body = true := by
    cases statement with
    | ifElse condition thenBlock elseBlock =>
        simp only [wellFormed, Bool.and_eq_true] at h
        simp only [blocks, List.mem_cons, List.not_mem_nil, or_false] at hbody
        rcases hbody with rfl | rfl
        · exact h.1.2
        · exact h.2
    | _ => simp_all [blocks, wellFormed]
  rw [wellFormedAll_eq_all, List.all_eq_true] at hall
  exact hall member hmember

/-- No word of a well-formed expression is unknown, and no operator is missing. -/
theorem Expr.Causes.exists_arity {expr : Expr} {error : RuntimeError} (h : expr.Causes error)
    (hexpr : expr.wellFormed = true) :
    ∃ operator expected found, error = .incorrectArity operator expected found := by
  cases expr with
  | simple token =>
      obtain ⟨hname, hliteral, -⟩ := h
      have hkind : token.kind.isLiteral = true := by
        simpa [wellFormed, Token.isSimple, hname] using hexpr
      obtain ⟨value, hvalue, -⟩ := Value.exists_ofLiteral? hkind
      rw [hliteral] at hvalue
      cases hvalue
  | list elements => cases h
  | call operator arguments =>
      rw [wellFormed, Bool.and_eq_true] at hexpr
      cases hnamed : Builtin.named? operator.spelling with
      | some builtin =>
          rw [Causes, hnamed] at h
          exact ⟨_, _, _, h.2⟩
      | none =>
          rw [Causes, hnamed] at h
          have hsome := Builtin.isSome_named?_of_isCallable hexpr.1 h.1
          rw [hnamed] at hsome
          cases hsome

/-! ## Runs of parsed statements -/

/-- The error does not come from a word that the evaluator does not know. -/
def Error.IsUnderstood : Error → Prop
  | .running (.unknownExpression _) => False
  | .running (.undeclaredFunction name) => Token.kind ⟨name⟩ = .identifier
  | _ => True

theorem RuntimeError.isUnderstood_of_other {error : RuntimeError} (h : ¬ error.IsAboutProgram) :
    (Error.running error).IsUnderstood := by
  cases error with
  | unknownExpression token => exact absurd trivial h
  | undeclaredFunction name => exact absurd trivial h
  | _ => trivial

/-- Only well-formed trees are run. -/
def Discipline.parsed : Discipline where
  evaluates expr := expr.wellFormed = true
  executes statement := statement.wellFormed = true
  knows _ decl := decl.toStatement.wellFormed = true
  expects := Error.IsUnderstood
  evaluates_part := Expr.wellFormed_of_part
  evaluates_expr := Statement.wellFormed_of_expr
  executes_member := Statement.wellFormed_of_member
  executes_body {_ decl member} h hmember := by
    rw [FunctionDecl.toStatement, Statement.wellFormed, Bool.and_eq_true,
      Statement.wellFormedAll_eq_all, List.all_eq_true] at h
    exact h.2 member hmember
  knows_declared h := h
  expects_other := RuntimeError.isUnderstood_of_other
  expects_sinkFull := trivial
  expects_caused hexpr hcause := by
    obtain ⟨operator, expected, found, rfl⟩ := hcause.exists_arity hexpr
    trivial
  expects_undeclared _ hkind := hkind
  expects_arity _ _ _ _ := trivial

theorem Statement.IsParsed.wellFormed {statement : Statement} (h : statement.IsParsed) :
    statement.wellFormed = true := by
  obtain ⟨stream, rest, -, hparse⟩ := h
  exact (Goal.statement.readBy_run.sound hparse).1

/-- All functions of a program that was parsed were parsed. -/
theorem keeps_executeProgram (sink : Sink) {steps : List (Nat × Statement)}
    (h : ∀ step ∈ steps, step.2.IsParsed) :
    (executeProgram { sink } steps).Keeps .parsed := by
  induction steps using List.reverseRecOn with
  | nil =>
      intro name decl hfind
      cases hfind
  | append_singleton past step ih =>
      have hpast := ih fun other hother => h other (List.mem_append_left _ hother)
      have hstep := (h step (by simp)).wellFormed
      rw [executeProgram_append]
      exact ((Discipline.parsed.obeys step.1).2 step.2 hstep _ hpast).2

theorem evaluate_literal {token : Token} {value : Value} (h : token.Denotes value) (bound : Nat)
    (context : Context) :
    evaluate (bound + 1) (.simple token) context = (.done value, context) := by
  have hname : token.kind ≠ .identifier := by
    intro hkind
    have hliteral := h.isLiteral
    rw [hkind] at hliteral
    cases hliteral
  change evaluateSimple token context = _
  rw [evaluateSimple, if_neg hname, ofLiteral?_eq_some_iff.2 h]
  rfl

/-- Where all statements were parsed, no execution fails for an unknown word, and a function that is
not there is named by an identifier. Each literal evaluates to the value that it denotes, whatever
the context is, and does nothing else. The number literals are the texts of the pattern, so all of
these are read as numbers. -/
theorem parsed_programs_understood :
    (∀ (sink : Sink) (past : List (Nat × Statement)) (bound : Nat) (statement : Statement)
      (error : RuntimeError), (∀ step ∈ past, step.2.IsParsed) → statement.IsParsed →
        (executeTopLevel bound statement (executeProgram { sink } past)).1 =
          .failed (.running error) →
        (∀ token, error ≠ .unknownExpression token) ∧
          ∀ name, error = .undeclaredFunction name → Token.kind ⟨name⟩ = .identifier) ∧
    (∀ token : Token, token.kind.isLiteral = true →
      ∃ value, token.Denotes value ∧ ∀ (bound : Nat) (context : Context),
        evaluate (bound + 1) (.simple token) context = (.done value, context)) ∧
    ∀ token : Token, token.kind = .numberLiteral ↔
      Number.Numeral.IsWritten token.spelling.toList := by
  refine ⟨?_, ?_, fun token => TokenKind.classify_eq_numberLiteral_iff⟩
  · intro sink past bound statement error hpast hstatement herror
    have hfailed : (execute bound statement (executeProgram { sink } past)).1 =
        .failed (.running error) := by
      rw [executeTopLevel_eq] at herror
      split at herror <;> cases herror
      next hrun => rw [hrun]
    have hunderstood := ((Discipline.parsed.obeys bound).2 statement hstatement.wellFormed _
      (keeps_executeProgram sink hpast)).1 _ hfailed
    refine ⟨?_, ?_⟩
    · rintro token rfl
      exact hunderstood
    · rintro name rfl
      exact hunderstood
  · intro token hliteral
    obtain ⟨value, -, hdenotes⟩ := Value.exists_ofLiteral? hliteral
    exact ⟨value, hdenotes, evaluate_literal hdenotes⟩

deriving instance DecidableEq for Outcome

/-- A function that calls another one, which is declared nowhere. -/
def danglingFunction : Statement :=
  .func ⟨"f"⟩ [⟨"x"⟩] [.return (.call ⟨"g"⟩ [.simple ⟨"x"⟩])]

/-- Calls the function with a literal. -/
def danglingCall : Statement :=
  .print (.call ⟨"f"⟩ [.simple ⟨"-1.5E+2"⟩])

theorem missing_function_named :
    danglingFunction.IsParsed ∧ danglingCall.IsParsed ∧
      (executeTopLevel 9 danglingCall (executeProgram {} [(9, danglingFunction)])).1 =
        .failed (.running (.undeclaredFunction "g")) ∧
      Token.kind ⟨"g"⟩ = .identifier ∧
      ∃ value, Token.Denotes ⟨"-1.5E+2"⟩ value ∧
        ∀ context, evaluate 1 (.simple ⟨"-1.5E+2"⟩) context = (.done value, context) := by
  obtain ⟨herrors, hliterals, -⟩ := parsed_programs_understood
  have hfunction : parseStatement (.ofText "func f(x) \x7breturn (g x)\x7d") =
      (.ok danglingFunction, ⟨[], [], none⟩) := by decide +kernel
  have hcall : parseStatement (.ofText "print (f -1.5E+2)") =
      (.ok danglingCall, ⟨[], [], none⟩) := by decide +kernel
  have hparsed : danglingFunction.IsParsed := ⟨_, _, .start _, hfunction⟩
  have hparsed' : danglingCall.IsParsed := ⟨_, _, .start _, hcall⟩
  have hpast : ∀ step ∈ [(9, danglingFunction)], step.2.IsParsed := by
    intro step hstep
    rw [List.mem_singleton.1 hstep]
    exact hparsed
  have hfailed : (executeTopLevel 9 danglingCall (executeProgram {} [(9, danglingFunction)])).1 =
      .failed (.running (.undeclaredFunction "g")) := by decide +kernel
  obtain ⟨value, hdenotes, hevaluate⟩ := hliterals ⟨"-1.5E+2"⟩ (by decide +kernel)
  exact ⟨hparsed, hparsed', hfailed, (herrors .unlimited _ 9 _ _ hpast hparsed' hfailed).2 "g" rfl,
    value, hdenotes, hevaluate 0⟩

end TinyScript
