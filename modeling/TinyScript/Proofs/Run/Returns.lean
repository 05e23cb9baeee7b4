import TinyScript.Proofs.Program.Returns
import TinyScript.Proofs.Run.Failures

/-!
# Where statements return

Without a return in it, outside the bodies of functions, a statement never returns
(`completes_execute`), and if every way through it comes to a return it never completes
(`returns_execute`). Calls take up all returns, of whatever function they run.
-/

namespace TinyScript

/-! ## Results of one kind -/

namespace Action

variable {α β : Type} {Good : α → Prop}

/-- Whatever the action results in is good. -/
def Gives (Good : α → Prop) (action : Action α) : Prop :=
  ∀ context result, (action context).1 = .done result → Good result

theorem gives_pure {result : α} (h : Good result) : (pure result : Action α).Gives Good := by
  rintro _ _ ⟨⟩
  exact h

theorem gives_unfinished : (unfinished : Action α).Gives Good := by
  rintro _ _ ⟨⟩

theorem gives_bind {action : Action β} {next : β → Action α}
    {Possible : β → Prop} (haction : action.Gives Possible)
    (hnext : ∀ result, Possible result → (next result).Gives Good) :
    (action >>= next).Gives Good := by
  intro context result hresult
  rw [bind_eq] at hresult
  rcases hrun : action context with ⟨first | error | _, middle⟩
  · rw [hrun] at hresult
    have hpossible := haction context first (by rw [hrun])
    exact hnext first hpossible middle result hresult
  · rw [hrun] at hresult
    cases hresult
  · rw [hrun] at hresult
    cases hresult

theorem gives_any (action : Action α) : action.Gives fun _ => True :=
  fun _ _ _ => trivial

theorem Gives.inScope {action : Action α} (h : action.Gives Good) (enter : Memory → Memory) :
    (inScope enter action).Gives Good :=
  fun context => h { context with memory := enter context.memory }

/-- The action never returns. -/
abbrev Completes (action : Action Flow) : Prop :=
  action.Gives (· = .completed)

/-- The action ends in no other way than by a return or an error. -/
abbrev Returns (action : Action Flow) : Prop :=
  action.Gives (· ≠ .completed)

end Action

namespace Flow

variable {first next body : Action Flow}

theorem gives_andThen {Good : Flow → Prop}
    (hfirst : first.Gives fun flow => flow = .completed ∨ Good flow) (hnext : next.Gives Good) :
    (andThen first next).Gives Good := by
  refine Action.gives_bind hfirst fun flow hflow => ?_
  cases flow with
  | completed => exact hnext
  | returning value => exact Action.gives_pure (hflow.resolve_left nofun)

theorem completes_andThen (hfirst : first.Completes) (hnext : next.Completes) :
    (andThen first next).Completes :=
  gives_andThen (fun context flow hflow => .inl (hfirst context flow hflow)) hnext

theorem returns_andThen (hnext : next.Returns) : (andThen first next).Returns :=
  gives_andThen (fun _ flow _ => Classical.em (flow = .completed)) hnext

/-- Nothing is done behind what returns. -/
theorem andThen_of_returns (h : first.Returns) (next : Action Flow) :
    andThen first next = first := by
  funext context
  rw [andThen, Action.bind_eq]
  rcases hrun : first context with ⟨⟨_ | value⟩ | error | _, after⟩
  · exact absurd rfl (h context .completed (by rw [hrun]))
  · rfl
  · rfl
  · rfl

theorem completes_times (hbody : body.Completes) (rounds : Nat) :
    (times body rounds).Completes := by
  induction rounds with
  | zero => exact Action.gives_pure rfl
  | succ rounds ih =>
      rw [times_succ]
      exact completes_andThen hbody ih

theorem completes_whileTrue (condition : Action Bool) (hbody : body.Completes) (rounds : Nat) :
    (whileTrue condition body rounds).Completes := by
  induction rounds with
  | zero => exact Action.gives_unfinished
  | succ rounds ih =>
      rw [whileTrue_succ]
      refine Action.gives_bind (Action.gives_any condition) fun holds _ => ?_
      cases holds with
      | true => exact completes_andThen hbody ih
      | false => exact Action.gives_pure rfl

end Flow

section

variable {execute : Statement → Action Flow}

theorem completes_executeBlock {body : Block}
    (h : ∀ statement ∈ body, (execute statement).Completes) :
    (executeBlock execute body).Completes := by
  refine Action.Gives.inScope ?_ Memory.beginNested
  induction body with
  | nil => exact Action.gives_pure rfl
  | cons statement statements ih =>
      apply Flow.completes_andThen (h statement (by simp))
      exact ih fun next hnext => h next (by simp [hnext])

theorem returns_executeBlock {body : Block}
    (h : ∀ statement, statement.alwaysReturns = true → (execute statement).Returns)
    (hbody : Statement.alwaysReturnsAny body = true) : (executeBlock execute body).Returns := by
  refine Action.Gives.inScope ?_ Memory.beginNested
  induction body with
  | nil => cases hbody
  | cons statement statements ih =>
      rw [Statement.alwaysReturnsAny, Bool.or_eq_true] at hbody
      rcases hbody with hstatement | hstatements
      · rw [executeAll, Flow.andThen_of_returns (h statement hstatement)]
        exact h statement hstatement
      · exact Flow.returns_andThen (ih hstatements)

/-- Nothing behind a statement that returns has an effect. -/
theorem executeBlock_of_returns {statement : Statement} (h : (execute statement).Returns)
    (before tail other : List Statement) :
    executeBlock execute (before ++ statement :: tail) =
      executeBlock execute (before ++ statement :: other) := by
  unfold executeBlock
  congr 1
  induction before with
  | nil =>
      rw [List.nil_append, List.nil_append, executeAll, executeAll, Flow.andThen_of_returns h,
        Flow.andThen_of_returns h]
  | cons first before ih => rw [List.cons_append, List.cons_append, executeAll, executeAll, ih]

end

/-! ## Statements -/

theorem completes_assign (evaluate : Expr → Action Value) (name : String) (expr : Expr) :
    (assign evaluate name expr).Completes := by
  intro context flow hflow
  rw [assign_eq] at hflow
  split at hflow
  · cases hflow
  · have hstore : (storeValue evaluate name expr).Completes := by
      refine Action.gives_bind (Action.gives_any _) fun value _ => ?_
      refine Action.gives_bind (Action.gives_any _) fun _ _ => ?_
      exact Action.gives_pure rfl
    exact hstore _ flow hflow

theorem completes_declareFunction (decl : FunctionDecl) : (declareFunction decl).Completes := by
  intro context flow hflow
  rcases declareFunction_cases decl context with ⟨error, hrefused⟩ | ⟨-, -, memory, -, hdone⟩
  · rw [hrefused] at hflow
    cases hflow
  · rw [hdone] at hflow
    cases hflow
    rfl

/-- What has no return in it does not return. -/
theorem completes_execute (bound : Nat) {statement : Statement}
    (h : statement.mayReturn = false) : (execute bound statement).Completes := by
  induction bound generalizing statement with
  | zero => exact Action.gives_unfinished
  | succ bound ih =>
      have hblocks : ∀ body ∈ statement.blocks, (executeBlock (execute bound) body).Completes := by
        intro body hbody
        apply completes_executeBlock
        intro member hmember
        exact ih (Statement.mayReturn_of_member h hbody hmember)
      cases statement with
      | assign target value => exact completes_assign _ target.spelling value
      | block body => exact hblocks body (by simp [Statement.blocks])
      | ifElse condition thenBlock elseBlock =>
          refine Action.gives_bind (Action.gives_any _) fun holds _ => ?_
          cases holds with
          | true => exact hblocks thenBlock (by simp [Statement.blocks])
          | false => exact hblocks elseBlock (by simp [Statement.blocks])
      | «while» condition body =>
          exact Flow.completes_whileTrue _ (hblocks body (by simp [Statement.blocks])) bound
      | «repeat» count body =>
          refine Action.gives_bind (Action.gives_any _) fun value _ => ?_
          refine Action.gives_bind (Action.gives_any _) fun rounds _ => ?_
          exact Flow.completes_times (hblocks body (by simp [Statement.blocks])) rounds
      | func name parameters body => exact completes_declareFunction ⟨name, parameters, body⟩
      | «return» value => cases h
      | print value =>
          refine Action.gives_bind (Action.gives_any _) fun result _ => ?_
          refine Action.gives_bind (Action.gives_any _) fun _ _ => ?_
          exact Action.gives_pure rfl

/-- What comes to a return on every way does not complete. -/
theorem returns_execute (bound : Nat) {statement : Statement}
    (h : statement.alwaysReturns = true) : (execute bound statement).Returns := by
  induction bound generalizing statement with
  | zero => exact Action.gives_unfinished
  | succ bound ih =>
      cases statement with
      | block body => exact returns_executeBlock (fun _ => ih) h
      | ifElse condition thenBlock elseBlock =>
          rw [Statement.alwaysReturns, Bool.and_eq_true] at h
          refine Action.gives_bind (Action.gives_any _) fun holds _ => ?_
          cases holds with
          | true => exact returns_executeBlock (fun _ => ih) h.1
          | false => exact returns_executeBlock (fun _ => ih) h.2
      | «return» value =>
          refine Action.gives_bind (Action.gives_any _) fun result _ => ?_
          exact Action.gives_pure nofun
      | _ => cases h

/-- A statement outside all functions is refused only for a return. -/
theorem executeTopLevel_refuses {bound : Nat} {statement : Statement} {context : Context}
    (h : (executeTopLevel bound statement context).1 = .failed .returnOutsideFunction) :
    ∃ value, (execute bound statement context).1 = .done (.returning value) := by
  rw [executeTopLevel_eq] at h
  rcases hrun : execute bound statement context with ⟨⟨_ | value⟩ | error | _, after⟩
  · rw [hrun] at h
    cases h
  · exact ⟨value, rfl⟩
  · rw [hrun] at h
    cases h
    exact (isOfRun_of_execute (congrArg Prod.fst hrun)).elim
  · rw [hrun] at h
    cases h

end TinyScript
