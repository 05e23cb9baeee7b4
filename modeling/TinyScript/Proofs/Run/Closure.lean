import TinyScript.Proofs.Run.Congruence

/-!
# Properties that running keeps

A property that carries over from parts of an action to the whole (`Action.Sequential`) holds of
what an expression or a statement does if it holds of what its parts do, of the accesses to the
context, of the calls, assignments and declarations in it, and of the errors that its own words may
cause (`Action.Sequential.evaluate_succ`, `Action.Sequential.execute_succ`). Loops without a count
are no exception if it holds of what is unfinished as well (`Action.Compositional`). Most properties
do not care for the kind of an error (`Action.Closed`).
-/

namespace TinyScript

/-- A property of actions that carries over from parts to what is sequenced from them. Errors that
are about values have it. -/
structure Action.Sequential (Holds : (α : Type) → Action α → Prop) : Prop where
  pure {α : Type} (result : α) : Holds α (pure result)
  failValue {α : Type} {error : RuntimeError} (herror : error.IsAboutValues) :
    Holds α (Action.failRunning error)
  bind {α β : Type} {action : Action α} {next : α → Action β} (haction : Holds α action)
    (hnext : ∀ result, Holds β (next result)) : Holds β (action >>= next)

/-- A property of actions that carries over from parts to the whole, whether or not the bound
suffices. -/
structure Action.Compositional (Holds : (α : Type) → Action α → Prop) : Prop
    extends Action.Sequential Holds where
  unfinished {α : Type} : Holds α Action.unfinished

/-- A property of actions that carries over from parts to what is sequenced from them. All errors
have it. -/
structure Action.Closed (Holds : (α : Type) → Action α → Prop) : Prop
    extends Action.Compositional Holds where
  fail {α : Type} (error : RuntimeError) : Holds α (Action.failRunning error)
  failValue {_} {error} _ := fail error

/-- It is such a property to be related to itself. -/
theorem Action.Congruence.compositional {Rel : (α : Type) → Action α → Action α → Prop}
    (h : Action.Congruence Rel) : Compositional fun α action => Rel α action action where
  pure := h.pure
  failValue := h.fail
  unfinished := h.unfinished
  bind := h.bind

/-- What an action does to the context may be any relation that sequencing respects. -/
theorem Action.closed_of_trans (Rel : Context → Context → Prop)
    (hrefl : ∀ context, Rel context context)
    (htrans : ∀ {first second third}, Rel first second → Rel second third → Rel first third) :
    Closed fun _ action => ∀ context, Rel context (action context).2 where
  pure _ context := hrefl context
  fail _ context := hrefl context
  unfinished context := hrefl context
  bind {_ _ action next} haction hnext := by
    intro context
    have hfirst := haction context
    rw [bind_eq]
    rcases hrun : action context with ⟨result | error | _, middle⟩
    · rw [hrun] at hfirst
      exact htrans hfirst (hnext result middle)
    · rwa [hrun] at hfirst
    · rwa [hrun] at hfirst

namespace Action.Sequential

variable {Holds : (α : Type) → Action α → Prop} (h : Action.Sequential Holds)

include h

theorem congruence :
    Action.SequentialCongruence fun α action other => other = action ∧ Holds α action where
  pure result := ⟨rfl, h.pure result⟩
  fail herror := ⟨rfl, h.failValue herror⟩
  bind {_ _ _ _ _ _} haction hnext := by
    obtain ⟨rfl, haction⟩ := haction
    obtain rfl := funext fun result => (hnext result).1
    exact ⟨rfl, h.bind haction fun result => (hnext result).2⟩

theorem evaluateAll {evaluate : Expr → Action Value} {arguments : List Expr}
    (hevaluate : ∀ argument ∈ arguments, Holds Value (evaluate argument)) :
    Holds (List Value) (evaluateAll evaluate arguments) :=
  (h.congruence.evaluateAll fun argument hargument => ⟨rfl, hevaluate argument hargument⟩).2

theorem apply {evaluate : Expr → Action Value} {arguments : List Expr}
    (hevaluate : ∀ argument ∈ arguments, Holds Value (evaluate argument)) {builtin : Builtin}
    (harity : builtin.arity.accepts arguments.length = false →
      Holds Value (Action.failRunning (builtin.wrongArity arguments))) :
    Holds Value (builtin.apply evaluate arguments) :=
  (h.congruence.apply (fun argument hargument => ⟨rfl, hevaluate argument hargument⟩)
    fun haccepts => ⟨rfl, harity haccepts⟩).2

theorem evaluateCondition {evaluate : Expr → Action Value} {condition : Expr}
    (hcondition : Holds Value (evaluate condition)) (construct : String) :
    Holds Bool (evaluateCondition evaluate construct condition) := by
  have hsame : evaluate condition = evaluate condition ∧ Holds Value (evaluate condition) :=
    ⟨rfl, hcondition⟩
  exact (h.congruence.evaluateCondition construct hsame).2

theorem repeatRounds (value : Value) : Holds Nat (repeatRounds value) :=
  (h.congruence.repeatRounds value).2

theorem executeAll {execute : Statement → Action Flow} {statements : List Statement}
    (hexecute : ∀ statement ∈ statements, Holds Flow (execute statement)) :
    Holds Flow (executeAll execute statements) :=
  (h.congruence.executeAll fun statement hstatement =>
    ⟨rfl, hexecute statement hstatement⟩).2

theorem andThen {first next : Action Flow} (hfirst : Holds Flow first) (hnext : Holds Flow next) :
    Holds Flow (Flow.andThen first next) :=
  (h.congruence.andThen ⟨rfl, hfirst⟩ ⟨rfl, hnext⟩).2

theorem times {body : Action Flow} (hbody : Holds Flow body) (rounds : Nat) :
    Holds Flow (Flow.times body rounds) :=
  (h.congruence.times ⟨rfl, hbody⟩ rounds).2

/-! ## Calls and stores -/

theorem printLine (hwrite : ∀ piece, Holds Unit (Action.write piece)) (text : String) :
    Holds Unit (Action.printLine text) :=
  (h.congruence.printLine (fun piece => ⟨rfl, hwrite piece⟩) text).2

theorem bindParameters (hdeclare : ∀ name, Holds Unit (Action.declare name))
    (hstore : ∀ name value, Holds Unit (Action.store name value)) (parameters : List Token)
    (values : List Value) : Holds Unit (bindParameters parameters values) :=
  (h.congruence.bindParameters (fun name => ⟨rfl, hdeclare name⟩)
    (fun name value => ⟨rfl, hstore name value⟩) parameters values).2

theorem runBody (hdeclare : ∀ name, Holds Unit (Action.declare name))
    (hstore : ∀ name value, Holds Unit (Action.store name value))
    {execute : Statement → Action Flow} {decl : FunctionDecl}
    (hbody : Holds Flow (executeBlock execute decl.body)) (arguments : List Value) :
    Holds Value (runBody execute decl arguments) := by
  have hbind := h.congruence.bindParameters (fun name => ⟨rfl, hdeclare name⟩)
    (fun name value => ⟨rfl, hstore name value⟩) decl.parameters arguments
  exact (h.congruence.runBody hbind ⟨rfl, hbody⟩).2

theorem storeValue {evaluate : Expr → Action Value} {name : String} {expr : Expr}
    (hevaluate : Holds Value (evaluate expr))
    (hstore : ∀ value, Holds Unit (Action.store name value)) :
    Holds Flow (storeValue evaluate name expr) := by
  have hsame : evaluate expr = evaluate expr ∧ Holds Value (evaluate expr) := ⟨rfl, hevaluate⟩
  exact (h.congruence.storeValue hsame fun value => ⟨rfl, hstore value⟩).2

/-! ## Expressions and statements -/

theorem evaluate_succ {bound : Nat} {expr : Expr}
    (hlookup : ∀ token, expr = .simple token → token.kind = .identifier →
      Holds Value (Action.lookup token.spelling))
    (hparts : ∀ part ∈ expr.parts, Holds Value (evaluate bound part))
    (hcall : ∀ operator arguments, expr = .call operator arguments →
      operator.kind = .identifier →
      Holds Value (callFunction (evaluate bound) (execute bound) operator.spelling arguments))
    (hcause : ∀ error, expr.Causes error → Holds Value (Action.failRunning error)) :
    Holds Value (evaluate (bound + 1) expr) := by
  rw [evaluate_succ_eq]
  exact (h.congruence.evaluateStep (fun token htoken hkind => ⟨rfl, hlookup token htoken hkind⟩)
    (fun part hpart => ⟨rfl, hparts part hpart⟩)
    (fun operator arguments hcalls hkind => ⟨rfl, hcall operator arguments hcalls hkind⟩)
    fun error herror => ⟨rfl, hcause error herror⟩).2

/-- The rounds of loops without a count are left to an assumption of their own. -/
theorem executeStep {print : String → Action Unit} {evaluate : Expr → Action Value}
    {execute : Statement → Action Flow} {rounds : Nat} {statement : Statement}
    (hprint : ∀ text, Holds Unit (print text))
    (hexprs : ∀ expr ∈ statement.exprs, Holds Value (evaluate expr))
    (hblocks : ∀ body ∈ statement.blocks, Holds Flow (executeBlock execute body))
    (hassign : ∀ target value, statement = .assign target value →
      Holds Flow (assign evaluate target.spelling value))
    (hfunc : ∀ decl : FunctionDecl, statement = decl.toStatement →
      Holds Flow (declareFunction decl))
    (hwhile : ∀ condition body, statement = .while condition body →
      Holds Flow (Flow.whileTrue (TinyScript.evaluateCondition evaluate "while" condition)
        (executeBlock execute body) rounds)) :
    Holds Flow (executeStep print evaluate execute rounds statement) := by
  have hstep := h.congruence.executeStep (fun text => ⟨rfl, hprint text⟩)
    (fun expr hexpr => ⟨rfl, hexprs expr hexpr⟩) (fun body hbody => ⟨rfl, hblocks body hbody⟩)
    (fun target value hstatement => ⟨rfl, hassign target value hstatement⟩)
    (fun decl hstatement => ⟨rfl, hfunc decl hstatement⟩)
    fun condition body hstatement => ⟨rfl, hwhile condition body hstatement⟩
  exact hstep.2

theorem execute_succ {bound : Nat} {statement : Statement}
    (hprint : ∀ text, Holds Unit (Action.printLine text))
    (hexprs : ∀ expr ∈ statement.exprs, Holds Value (evaluate bound expr))
    (hblocks : ∀ body ∈ statement.blocks, Holds Flow (executeBlock (execute bound) body))
    (hassign : ∀ target value, statement = .assign target value →
      Holds Flow (assign (evaluate bound) target.spelling value))
    (hfunc : ∀ decl : FunctionDecl, statement = decl.toStatement →
      Holds Flow (declareFunction decl))
    (hwhile : ∀ condition body, statement = .while condition body →
      Holds Flow (Flow.whileTrue
        (TinyScript.evaluateCondition (evaluate bound) "while" condition)
        (executeBlock (execute bound) body) bound)) :
    Holds Flow (execute (bound + 1) statement) := by
  rw [execute_succ_eq]
  exact h.executeStep hprint hexprs hblocks hassign hfunc hwhile

end Action.Sequential

namespace Action.Compositional

variable {Holds : (α : Type) → Action α → Prop} (h : Action.Compositional Holds)

include h

theorem whileTrue {condition : Action Bool} {body : Action Flow}
    (hcondition : Holds Bool condition) (hbody : Holds Flow body) (rounds : Nat) :
    Holds Flow (Flow.whileTrue condition body rounds) := by
  induction rounds with
  | zero => exact h.unfinished
  | succ rounds ih =>
      rw [Flow.whileTrue_succ]
      refine h.bind hcondition fun holds => ?_
      cases holds with
      | true => exact h.andThen hbody ih
      | false => exact h.pure _

theorem execute_succ {bound : Nat} {statement : Statement}
    (hwrite : ∀ piece, Holds Unit (Action.write piece))
    (hexprs : ∀ expr ∈ statement.exprs, Holds Value (evaluate bound expr))
    (hblocks : ∀ body ∈ statement.blocks, Holds Flow (executeBlock (execute bound) body))
    (hassign : ∀ target value, statement = .assign target value →
      Holds Flow (assign (evaluate bound) target.spelling value))
    (hfunc : ∀ decl : FunctionDecl, statement = decl.toStatement →
      Holds Flow (declareFunction decl)) :
    Holds Flow (execute (bound + 1) statement) := by
  apply h.toSequential.execute_succ (h.printLine hwrite) hexprs hblocks hassign hfunc
  rintro condition body rfl
  have hcondition := hexprs condition (by simp [Statement.exprs])
  have hbody := hblocks body (by simp [Statement.blocks])
  exact h.whileTrue (h.evaluateCondition hcondition "while") hbody bound

end Action.Compositional

theorem Action.Closed.evaluate_succ {Holds : (α : Type) → Action α → Prop}
    (h : Action.Closed Holds) {bound : Nat} {expr : Expr}
    (hlookup : ∀ token, expr = .simple token → token.kind = .identifier →
      Holds Value (Action.lookup token.spelling))
    (hparts : ∀ part ∈ expr.parts, Holds Value (evaluate bound part))
    (hcall : ∀ operator arguments, expr = .call operator arguments →
      operator.kind = .identifier →
      Holds Value (callFunction (evaluate bound) (execute bound) operator.spelling arguments)) :
    Holds Value (evaluate (bound + 1) expr) :=
  h.toCompositional.evaluate_succ hlookup hparts hcall fun error _ => h.fail error

end TinyScript
