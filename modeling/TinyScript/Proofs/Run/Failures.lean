import TinyScript.Proofs.Run.Closure

/-!
# Which errors a run may end in

A discipline says which trees may be run, which functions may be declared, and which errors are
expected (`Discipline`). It has to be kept up from trees to their parts and from functions to their
bodies, and the errors that an admitted tree causes by its own words have to be expected. Then
nothing that a run does raises another error, and it declares no other functions
(`Discipline.obeys`). Calls make this more than a look at the tree: what they run was declared at
any earlier time.
-/

namespace TinyScript

/-- The error is about how a program is written: a word without a meaning, a function that is not
there, or a wrong number of arguments. -/
def RuntimeError.IsAboutProgram : RuntimeError → Prop
  | .unknownExpression _ | .undeclaredFunction _ | .incorrectArity .. => True
  | _ => False

theorem RuntimeError.IsAboutValues.not_isAboutProgram {error : RuntimeError}
    (h : error.IsAboutValues) : ¬ error.IsAboutProgram := by
  cases error <;> simp_all [IsAboutValues, IsAboutProgram]

/-- What may be run, what may be declared and which errors may come of it. -/
structure Discipline where
  /-- The expressions that may be evaluated. -/
  evaluates : Expr → Prop
  /-- The statements that may be executed. -/
  executes : Statement → Prop
  /-- The functions that may be declared under a name. -/
  knows : String → FunctionDecl → Prop
  /-- The errors that are expected. -/
  expects : Error → Prop
  evaluates_part {expr part : Expr} : evaluates expr → part ∈ expr.parts → evaluates part
  evaluates_expr {statement : Statement} {expr : Expr} :
    executes statement → expr ∈ statement.exprs → evaluates expr
  executes_member {statement member : Statement} {body : Block} :
    executes statement → body ∈ statement.blocks → member ∈ body → executes member
  executes_body {name : String} {decl : FunctionDecl} {member : Statement} :
    knows name decl → member ∈ decl.body → executes member
  knows_declared {decl : FunctionDecl} :
    executes decl.toStatement → knows decl.name.spelling decl
  /-- Only errors about the program can be excluded by a look at it. -/
  expects_other {error : RuntimeError} : ¬ error.IsAboutProgram → expects (.running error)
  expects_sinkFull : expects (.channel .sinkFull)
  expects_caused {expr : Expr} {error : RuntimeError} :
    evaluates expr → expr.Causes error → expects (.running error)
  expects_undeclared {operator : Token} {arguments : List Expr} :
    evaluates (.call operator arguments) → operator.kind = .identifier →
      expects (.running (.undeclaredFunction operator.spelling))
  expects_arity {operator : Token} {arguments : List Expr} {decl : FunctionDecl} :
    evaluates (.call operator arguments) → operator.kind = .identifier →
      knows operator.spelling decl → decl.parameters.length ≠ arguments.length →
        expects (.running (.incorrectArity operator.spelling (toString decl.parameters.length)
          arguments.length))

variable {discipline : Discipline}

/-- All functions are known to the discipline. -/
def Context.Keeps (discipline : Discipline) (context : Context) : Prop :=
  ∀ name decl, context.functions.find? name = some decl → discipline.knows name decl

/-- Where the functions are known the action raises expected errors only, and they stay known. -/
def Action.Obeys {α : Type} (discipline : Discipline) (action : Action α) : Prop :=
  ∀ context : Context, context.Keeps discipline →
    (∀ error, (action context).1 = .failed error → discipline.expects error) ∧
      (action context).2.Keeps discipline

/-! ## Accesses to the context -/

theorem Memory.not_isAboutProgram_of_lookup {memory : Memory} {name : String}
    {error : RuntimeError} (h : memory.lookup name = .error error) : ¬ error.IsAboutProgram := by
  unfold lookup at h
  split at h <;> cases h
  all_goals exact id

theorem Memory.not_isAboutProgram_of_store {memory : Memory} {name : String} {value : Value}
    {error : RuntimeError} (h : memory.store name value = .error error) :
    ¬ error.IsAboutProgram := by
  unfold store at h
  split at h
  · cases h
    exact id
  · split at h <;> cases h

namespace Action

variable {α : Type}

theorem obeys_done {result : α} {action : Action α} {after : Context → Context}
    (h : ∀ context, action context = (.done result, after context))
    (hfunctions : ∀ context, (after context).functions = context.functions) :
    action.Obeys discipline := by
  intro context hkeeps
  rw [h]
  refine ⟨fun error herror => (by cases herror), ?_⟩
  intro name decl hfind
  exact hkeeps name decl (hfunctions context ▸ hfind)

theorem obeys_pure (result : α) : (pure result : Action α).Obeys discipline :=
  obeys_done (fun _ => rfl) fun _ => rfl

theorem obeys_fail {error : RuntimeError} (h : discipline.expects (.running error)) :
    (failRunning error : Action α).Obeys discipline := by
  intro context hkeeps
  refine ⟨?_, hkeeps⟩
  rintro _ ⟨⟩
  exact h

theorem compositional_obeys (discipline : Discipline) :
    Compositional fun _ action => action.Obeys discipline where
  pure result := obeys_pure result
  failValue herror := obeys_fail (discipline.expects_other herror.not_isAboutProgram)
  unfinished context hkeeps := ⟨fun error herror => (by cases herror), hkeeps⟩
  bind {_ _ action next} haction hnext := by
    intro context hkeeps
    obtain ⟨herrors, hmiddle⟩ := haction context hkeeps
    rw [bind_eq]
    rcases hrun : action context with ⟨result | error | _, middle⟩
    · rw [hrun] at hmiddle
      exact hnext result middle hmiddle
    · rw [hrun] at herrors hmiddle
      refine ⟨?_, hmiddle⟩
      rintro _ ⟨⟩
      exact herrors error rfl
    · rw [hrun] at hmiddle
      exact ⟨fun error herror => (by cases herror), hmiddle⟩

theorem obeys_lookup (name : String) : (lookup name).Obeys discipline := by
  intro context hkeeps
  change (∀ error, (ofExcept (context.memory.lookup name) context).1 = .failed error → _) ∧
    (ofExcept (context.memory.lookup name) context).2.Keeps discipline
  cases hlookup : context.memory.lookup name with
  | ok value => exact obeys_pure value context hkeeps
  | error error =>
      have hother := Memory.not_isAboutProgram_of_lookup hlookup
      exact obeys_fail (discipline.expects_other hother) context hkeeps

theorem obeys_declare (name : String) : (declare name).Obeys discipline :=
  obeys_done (fun _ => rfl) fun _ => rfl

theorem obeys_store (name : String) (value : Value) : (store name value).Obeys discipline := by
  intro context hkeeps
  unfold store
  split
  · exact ⟨fun error herror => (by cases herror), hkeeps⟩
  · next error hstore =>
      have hother := Memory.not_isAboutProgram_of_store hstore
      exact obeys_fail (discipline.expects_other hother) context hkeeps

theorem obeys_write (piece : String) : (write piece).Obeys discipline := by
  intro context hkeeps
  unfold write
  split
  · exact ⟨fun error herror => (by cases herror), hkeeps⟩
  · refine ⟨?_, hkeeps⟩
    rintro _ ⟨⟩
    exact discipline.expects_sinkFull

theorem Obeys.inScope {action : Action α} (h : action.Obeys discipline)
    (enter : Memory → Memory) : (inScope enter action).Obeys discipline := by
  intro context hkeeps
  exact h { context with memory := enter context.memory } hkeeps

end Action

/-! ## Programs -/

section

variable {evaluate : Expr → Action Value} {execute : Statement → Action Flow}

theorem obeys_executeBlock {body : Block}
    (hexecute : ∀ statement ∈ body, (execute statement).Obeys discipline) :
    (executeBlock execute body).Obeys discipline :=
  ((Action.compositional_obeys discipline).executeAll hexecute).inScope Memory.beginNested

theorem obeys_applyFunction {decl : FunctionDecl}
    (hexecute : ∀ statement ∈ decl.body, (execute statement).Obeys discipline)
    (arguments : List Value) : (applyFunction execute decl arguments).Obeys discipline := by
  have hbody := (Action.compositional_obeys discipline).runBody Action.obeys_declare
    Action.obeys_store (obeys_executeBlock hexecute) arguments
  rw [applyFunction_eq]
  exact hbody.inScope Memory.beginFunction

/-- The function that is called was declared under the discipline, whenever that was. -/
theorem obeys_callFunction {operator : Token} {arguments : List Expr}
    (hcall : discipline.evaluates (.call operator arguments)) (hkind : operator.kind = .identifier)
    (hevaluate : ∀ argument ∈ arguments, (evaluate argument).Obeys discipline)
    (hexecute : ∀ statement, discipline.executes statement →
      (execute statement).Obeys discipline) :
    (callFunction evaluate execute operator.spelling arguments).Obeys discipline := by
  have hcomposes := Action.compositional_obeys discipline
  intro context hkeeps
  rw [callFunction_eq]
  cases hfind : context.functions.find? operator.spelling with
  | none => exact Action.obeys_fail (discipline.expects_undeclared hcall hkind) context hkeeps
  | some decl =>
      have hknown := hkeeps operator.spelling decl hfind
      rw [callFound]
      split
      · refine hcomposes.bind (hcomposes.evaluateAll hevaluate) (fun values => ?_) context hkeeps
        apply obeys_applyFunction
        intro statement hstatement
        exact hexecute statement (discipline.executes_body hknown hstatement)
      · next harity =>
          exact Action.obeys_fail (discipline.expects_arity hcall hkind hknown harity) context
            hkeeps

theorem obeys_assign {name : String} {expr : Expr}
    (hevaluate : (evaluate expr).Obeys discipline) :
    (assign evaluate name expr).Obeys discipline := by
  have hstore := (Action.compositional_obeys discipline).storeValue hevaluate
    (Action.obeys_store name)
  intro context hkeeps
  rw [assign_eq]
  split
  · exact Action.obeys_fail (discipline.expects_other id) context hkeeps
  · apply hstore
    unfold Context.ready
    split
    · exact hkeeps
    · exact hkeeps

end

theorem Context.Keeps.withFunction {context : Context} {decl : FunctionDecl}
    (h : context.Keeps discipline) (hknown : discipline.knows decl.name.spelling decl)
    (memory : Memory) : (context.withFunction decl memory).Keeps discipline := by
  intro name found hfind
  rw [Context.withFunction, FunctionTable.register, NameTable.find?_insert] at hfind
  split at hfind
  · next hname =>
      cases hfind
      exact hname ▸ hknown
  · exact h name found hfind

theorem obeys_declareFunction {decl : FunctionDecl}
    (hknown : discipline.knows decl.name.spelling decl) :
    (declareFunction decl).Obeys discipline := by
  have hcomposes := Action.compositional_obeys discipline
  intro context hkeeps
  rw [declareFunction_eq]
  split
  · exact Action.obeys_fail (discipline.expects_other id) context hkeeps
  · split
    · exact Action.obeys_fail (discipline.expects_other id) context hkeeps
    · have hstore := hcomposes.bind
        (Action.obeys_store decl.name.spelling Value.functionMarker) fun _ =>
          hcomposes.pure Flow.completed
      exact hstore _ (hkeeps.withFunction hknown _)

/-- Where the functions are known, what the discipline admits raises only errors that it expects and
declares only functions that it knows. -/
theorem Discipline.obeys (discipline : Discipline) (bound : Nat) :
    (∀ expr, discipline.evaluates expr → (evaluate bound expr).Obeys discipline) ∧
      ∀ statement, discipline.executes statement →
        (execute bound statement).Obeys discipline := by
  have hcomposes := Action.compositional_obeys discipline
  induction bound with
  | zero => exact ⟨fun _ _ => hcomposes.unfinished, fun _ _ => hcomposes.unfinished⟩
  | succ bound ih =>
      obtain ⟨ihevaluate, ihexecute⟩ := ih
      constructor
      · intro expr hexpr
        have hparts : ∀ part ∈ expr.parts, (evaluate bound part).Obeys discipline :=
          fun part hpart => ihevaluate part (discipline.evaluates_part hexpr hpart)
        apply hcomposes.evaluate_succ
        · intro token _ _
          exact Action.obeys_lookup token.spelling
        · exact hparts
        · rintro operator arguments rfl hkind
          exact obeys_callFunction hexpr hkind hparts ihexecute
        · intro error hcause
          exact Action.obeys_fail (discipline.expects_caused hexpr hcause)
      · intro statement hstatement
        apply hcomposes.execute_succ Action.obeys_write
        · intro expr hexpr
          exact ihevaluate expr (discipline.evaluates_expr hstatement hexpr)
        · intro body hbody
          apply obeys_executeBlock
          intro member hmember
          exact ihexecute member (discipline.executes_member hstatement hbody hmember)
        · rintro target value rfl
          apply obeys_assign
          exact ihevaluate value (discipline.evaluates_expr hstatement (List.mem_singleton.2 rfl))
        · rintro decl rfl
          exact obeys_declareFunction (discipline.knows_declared hstatement)

/-! ## All programs -/

/-- The error is one of running or of the output. -/
def Error.IsOfRun : Error → Prop
  | .running _ => True
  | .channel error => error = .sinkFull
  | .parsing _ | .returnOutsideFunction => False

/-- Everything may be run. -/
def Discipline.unrestricted : Discipline where
  evaluates _ := True
  executes _ := True
  knows _ _ := True
  expects := Error.IsOfRun
  evaluates_part _ _ := trivial
  evaluates_expr _ _ := trivial
  executes_member _ _ _ := trivial
  executes_body _ _ := trivial
  knows_declared _ := trivial
  expects_other _ := trivial
  expects_sinkFull := rfl
  expects_caused _ _ := trivial
  expects_undeclared _ _ := trivial
  expects_arity _ _ _ _ := trivial

theorem isOfRun_of_evaluate {bound : Nat} {expr : Expr} {context : Context} {error : Error}
    (h : (evaluate bound expr context).1 = .failed error) : error.IsOfRun :=
  ((Discipline.unrestricted.obeys bound).1 expr trivial context fun _ _ _ => trivial).1 error h

theorem isOfRun_of_execute {bound : Nat} {statement : Statement} {context : Context}
    {error : Error} (h : (execute bound statement context).1 = .failed error) : error.IsOfRun :=
  ((Discipline.unrestricted.obeys bound).2 statement trivial context fun _ _ _ => trivial).1
    error h

end TinyScript
