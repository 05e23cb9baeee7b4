import TinyScript.Proofs.Memory.Renaming
import TinyScript.Proofs.Run.Closure

/-!
# Renaming in a run

A program with renamed identifiers does in the renamed context what the program does, and ends in
the renamed context. It prints the same text, for values have no names in them, and only its errors
tell the new names from the old ones (`renaming_commutes_with_running`).
-/

namespace TinyScript

variable (r : Renaming)

/-- The variables and the functions with the bodies of the functions are renamed. -/
def Context.rename (context : Context) : Context where
  memory := context.memory.rename r
  functions := context.functions.rename r (FunctionDecl.rename r)
  sink := context.sink

def Outcome.rename {α : Type} : Outcome α → Outcome α
  | .done result => .done result
  | .failed error => .failed (error.rename r)
  | .unfinished => .unfinished

theorem RuntimeError.rename_of_isAboutValues {error : RuntimeError} (h : error.IsAboutValues) :
    error.rename r = error := by
  cases error with
  | typeMismatch | comparisonMismatch | conditionNotBoolean | invalidRepeatCount
  | nonIntegerIndex | indexOutOfBounds => rfl
  | _ => cases h

/-! ## Mapped arguments -/

section

variable (evaluate : Expr → Action Value) (f : Expr → Expr) (arguments : List Expr)

theorem evaluateAll_map :
    evaluateAll evaluate (arguments.map f) =
      evaluateAll (fun expr => evaluate (f expr)) arguments := by
  induction arguments with
  | nil => rfl
  | cons argument arguments ih => rw [List.map_cons, evaluateAll, ih, evaluateAll]

namespace Builtin

theorem foldNumbers_map (operation : Arithmetic) (x : Number) :
    foldNumbers evaluate operation x (arguments.map f) =
      foldNumbers (fun expr => evaluate (f expr)) operation x arguments := by
  induction arguments generalizing x with
  | nil => rfl
  | cons argument arguments ih => simp only [List.map_cons, foldNumbers, ih]

theorem connect_map (operation : Connective) :
    connect evaluate operation (arguments.map f) =
      connect (fun expr => evaluate (f expr)) operation arguments := by
  induction arguments with
  | nil => rfl
  | cons argument arguments ih => simp only [List.map_cons, connect, ih]

theorem compareNeighbours_map (operation : Relation) :
    compareNeighbours evaluate operation (arguments.map f) =
      compareNeighbours (fun expr => evaluate (f expr)) operation arguments := by
  induction arguments with
  | nil => rfl
  | cons first arguments ih =>
      cases arguments with
      | nil => rfl
      | cons second arguments =>
          rw [List.map_cons, List.map_cons, compareNeighbours, ← List.map_cons, ih,
            compareNeighbours]

theorem joinLists_map (elements : List Value) :
    joinLists evaluate elements (arguments.map f) =
      joinLists (fun expr => evaluate (f expr)) elements arguments := by
  induction arguments generalizing elements with
  | nil => rfl
  | cons argument arguments ih => simp only [List.map_cons, joinLists, ih]

theorem joinStrings_map (text : String) :
    joinStrings evaluate text (arguments.map f) =
      joinStrings (fun expr => evaluate (f expr)) text arguments := by
  induction arguments generalizing text with
  | nil => rfl
  | cons argument arguments ih => simp only [List.map_cons, joinStrings, ih]

/-- An operator does not look at its arguments, it only evaluates them. -/
theorem apply_map (builtin : Builtin) :
    builtin.apply evaluate (arguments.map f) =
      builtin.apply (fun expr => evaluate (f expr)) arguments := by
  rcases arguments with _ | ⟨first, _ | ⟨second, rest⟩⟩
  · cases builtin <;> rfl
  · cases builtin <;> rfl
  · have hfold := foldNumbers_map evaluate f (second :: rest)
    have hconnect := connect_map evaluate f (first :: second :: rest)
    have hcompare := compareNeighbours_map evaluate f (first :: second :: rest)
    have hlists := joinLists_map evaluate f (second :: rest)
    have hstrings := joinStrings_map evaluate f (second :: rest)
    rw [List.map_cons] at hfold hconnect hcompare hlists hstrings
    cases builtin with
    | arithmetic operation => simp only [List.map_cons, apply, hfold]
    | connective operation => exact hconnect operation
    | relation operation => exact hcompare operation
    | cat => simp only [List.map_cons, apply, hlists, hstrings]
    | get => cases rest <;> simp [apply]
    | _ => simp [apply]

end Builtin

end

theorem executeAll_map (execute : Statement → Action Flow) (f : Statement → Statement)
    (statements : List Statement) :
    executeAll execute (statements.map f) =
      executeAll (fun statement => execute (f statement)) statements := by
  induction statements with
  | nil => rfl
  | cons statement statements ih => rw [List.map_cons, executeAll, ih, executeAll]

/-! ## Actions -/

namespace Action

variable {α : Type}

/-- The other action does in the renamed context what the action does. -/
def Renames (action other : Action α) : Prop :=
  ∀ context, other (context.rename r) =
    ((action context).1.rename r, (action context).2.rename r)

theorem renames_fail (error : RuntimeError) :
    Renames r (failRunning error : Action α) (failRunning (error.rename r)) :=
  fun _ => rfl

theorem congruence_renames : Congruence fun _ action other => Renames r action other where
  pure _ _ := rfl
  fail {α error} herror := by
    have hfail : Renames r (failRunning error : Action α) _ := renames_fail r error
    rwa [RuntimeError.rename_of_isAboutValues r herror] at hfail
  unfinished _ := rfl
  bind {_ _ action other next continued} haction hnext := by
    intro context
    rw [bind_eq, bind_eq, haction context]
    rcases action context with ⟨result | error | _, middle⟩
    · exact hnext result middle
    · rfl
    · rfl

theorem renames_lookup (name : String) : Renames r (lookup name) (lookup (r name)) := by
  intro context
  unfold lookup
  rw [Context.rename, Memory.lookup_rename]
  cases context.memory.lookup name <;> rfl

theorem renames_declare (name : String) : Renames r (declare name) (declare (r name)) := by
  intro context
  have hmemory := context.memory.declare_rename r name
  exact congrArg (fun memory => (Outcome.done (), { context.rename r with memory })) hmemory

theorem renames_store (name : String) (value : Value) :
    Renames r (store name value) (store (r name) value) := by
  intro context
  unfold store
  rw [Context.rename, Memory.store_rename]
  cases context.memory.store name value <;> rfl

theorem renames_write (piece : String) : Renames r (write piece) (write piece) := by
  intro context
  unfold write
  rw [Context.rename]
  cases context.sink.write? piece <;> rfl

variable {r}

theorem Renames.inScope {action other : Action α} (h : Renames r action other)
    {enter : Memory → Memory}
    (henter : ∀ memory, enter (memory.rename r) = (enter memory).rename r) :
    Renames r (inScope enter action) (inScope enter other) := by
  intro context
  have hscope := h { context with memory := enter context.memory }
  have hentered : { context.rename r with memory := enter (context.rename r).memory } =
      Context.rename r { context with memory := enter context.memory } :=
    congrArg (fun memory => { context.rename r with memory }) (henter context.memory)
  unfold Action.inScope
  rw [hentered, hscope]
  have hleft := (action { context with memory := enter context.memory }).2.memory.endScope_rename r
  simp only [Context.rename, hleft]

end Action

/-! ## Blocks and calls -/

theorem renames_bindParameters (parameters : List Token) (values : List Value) :
    Action.Renames r (bindParameters parameters values)
      (bindParameters (parameters.map (Token.rename r)) values) := by
  have h := Action.congruence_renames r
  induction parameters generalizing values with
  | nil => exact h.pure ()
  | cons parameter parameters ih =>
      cases values with
      | nil => exact h.pure ()
      | cons value values =>
          refine h.bind (Action.renames_declare r parameter.spelling) fun _ => ?_
          exact h.bind (Action.renames_store r parameter.spelling value) fun _ => ih values

section

variable {r} {evaluate : Expr → Action Value} {execute : Statement → Action Flow}
  (hevaluate : ∀ expr, Action.Renames r (evaluate expr) (evaluate (expr.rename r)))
  (hexecute : ∀ statement, Action.Renames r (execute statement) (execute (statement.rename r)))

include hevaluate in
theorem renames_evaluateAll (exprs : List Expr) :
    Action.Renames r (evaluateAll evaluate exprs)
      (evaluateAll evaluate (Expr.renameAll r exprs)) := by
  rw [Expr.renameAll_eq_map, evaluateAll_map]
  exact (Action.congruence_renames r).evaluateAll fun expr _ => hevaluate expr

include hevaluate in
theorem renames_apply (builtin : Builtin) (arguments : List Expr) :
    Action.Renames r (builtin.apply evaluate arguments)
      (builtin.apply evaluate (Expr.renameAll r arguments)) := by
  rw [Expr.renameAll_eq_map, Builtin.apply_map]
  apply (Action.congruence_renames r).apply fun expr _ => hevaluate expr
  intro _
  have hfail : Action.Renames r (Action.failRunning (builtin.wrongArity arguments) : Action Value)
      _ := Action.renames_fail r _
  rwa [Builtin.wrongArity, RuntimeError.rename, r.spelling_builtin] at hfail

include hexecute in
theorem renames_executeBlock (body : Block) :
    Action.Renames r (executeBlock execute body)
      (executeBlock execute (Statement.renameAll r body)) := by
  apply Action.Renames.inScope _ (Memory.beginNested_rename r)
  rw [Statement.renameAll_eq_map, executeAll_map]
  exact (Action.congruence_renames r).executeAll fun statement _ => hexecute statement

include hexecute in
theorem renames_applyFunction (decl : FunctionDecl) (values : List Value) :
    Action.Renames r (applyFunction execute decl values)
      (applyFunction execute (decl.rename r) values) := by
  rw [applyFunction_eq, applyFunction_eq]
  apply Action.Renames.inScope _ (Memory.beginFunction_rename r)
  have hbind := renames_bindParameters r decl.parameters values
  exact (Action.congruence_renames r).runBody hbind (renames_executeBlock hexecute decl.body)

include hevaluate hexecute in
theorem renames_callFunction (name : String) (arguments : List Expr) :
    Action.Renames r (callFunction evaluate execute name arguments)
      (callFunction evaluate execute (r name) (Expr.renameAll r arguments)) := by
  intro context
  rw [callFunction_eq, callFunction_eq]
  have hfound : (context.rename r).functions.find? (r name) =
      (context.functions.find? name).map (FunctionDecl.rename r) :=
    NameTable.find?_rename r (FunctionDecl.rename r) context.functions name
  have hlength : (Expr.renameAll r arguments).length = arguments.length := by
    rw [Expr.renameAll_eq_map, List.length_map]
  rw [hfound]
  cases context.functions.find? name with
  | none => rfl
  | some decl =>
      have hparameters : (decl.rename r).parameters.length = decl.parameters.length :=
        List.length_map _
      rw [Option.map_some, callFound, callFound, hparameters, hlength]
      split
      · have hvalues := renames_evaluateAll hevaluate arguments
        exact (Action.congruence_renames r).bind hvalues
          (renames_applyFunction hexecute decl) context
      · rfl

/-! ## Assignments and declarations -/

theorem Context.ready_rename (context : Context) (name : String) :
    (context.rename r).ready (r name) = (context.ready name).rename r := by
  have hdeclared := context.memory.isDeclared_rename r name
  have hmemory := context.memory.declare_rename r name
  rw [ready, ready]
  change (if (context.memory.rename r).isDeclared (r name) then _ else _) = _
  rw [hdeclared]
  split
  · rfl
  · exact congrArg (fun memory => { context.rename r with memory }) hmemory

theorem Context.contains_rename (context : Context) (name : String) :
    (context.rename r).functions.contains (r name) = context.functions.contains name :=
  NameTable.contains_rename r (FunctionDecl.rename r) context.functions name

include hevaluate in
theorem renames_assign (name : String) (expr : Expr) :
    Action.Renames r (assign evaluate name expr) (assign evaluate (r name) (expr.rename r)) := by
  have h := Action.congruence_renames r
  intro context
  rw [assign_eq, assign_eq, Context.contains_rename, Context.ready_rename]
  split
  · rfl
  · refine h.bind (hevaluate expr) (fun value => ?_) (context.ready name)
    exact h.bind (Action.renames_store r name value) fun _ => h.pure _

end

theorem Context.withFunction_rename (context : Context) (decl : FunctionDecl) (memory : Memory) :
    (context.rename r).withFunction (decl.rename r) (memory.rename r) =
      (context.withFunction decl memory).rename r := by
  have hfunctions := NameTable.insert_rename r (FunctionDecl.rename r) context.functions
    decl.name.spelling decl
  rw [withFunction, withFunction, FunctionTable.register, FunctionTable.register, rename, rename,
    hfunctions]
  rfl

theorem renames_declareFunction (decl : FunctionDecl) :
    Action.Renames r (declareFunction decl) (declareFunction (decl.rename r)) := by
  have h := Action.congruence_renames r
  intro context
  have hname : (decl.rename r).name.spelling = r decl.name.spelling := rfl
  have hdeclared := context.memory.isDeclared_rename r decl.name.spelling
  have hnew : (context.rename r).withFunction (decl.rename r)
      ((context.rename r).memory.declare (r decl.name.spelling)) =
        (context.withFunction decl (context.memory.declare decl.name.spelling)).rename r := by
    rw [← Context.withFunction_rename]
    exact congrArg _ (context.memory.declare_rename r decl.name.spelling)
  rw [declareFunction_eq, declareFunction_eq, hname, Context.contains_rename, hnew]
  change (if (context.memory.rename r).isDeclared (r decl.name.spelling) then _ else _) = _
  rw [hdeclared]
  split
  · rfl
  · split
    · rfl
    · exact h.bind (Action.renames_store r decl.name.spelling Value.functionMarker)
        (fun _ => h.pure _) _

/-! ## Runs -/

theorem renames_evaluateSimple (token : Token) :
    Action.Renames r (evaluateSimple token) (evaluateSimple (token.rename r)) := by
  by_cases hkind : token.kind = .identifier
  · rw [evaluateSimple, evaluateSimple, Token.kind_rename, if_pos hkind, if_pos hkind]
    exact Action.renames_lookup r token.spelling
  · rw [Token.rename_of_kind r hkind, evaluateSimple, if_neg hkind]
    cases Value.ofLiteral? token with
    | some value => exact (Action.congruence_renames r).pure value
    | none =>
        have hfail : Action.Renames r
            (Action.failRunning (.unknownExpression token.spelling) : Action Value) _ :=
          Action.renames_fail r _
        rwa [RuntimeError.rename, r.fixes token.spelling hkind] at hfail

/-- A renamed tree does in the renamed context what the tree does. -/
theorem renames_run (bound : Nat) :
    (∀ expr, Action.Renames r (evaluate bound expr) (evaluate bound (expr.rename r))) ∧
      ∀ statement : Statement,
        Action.Renames r (execute bound statement) (execute bound (statement.rename r)) := by
  have h := Action.congruence_renames r
  induction bound with
  | zero => exact ⟨fun _ => h.unfinished, fun _ => h.unfinished⟩
  | succ bound ih =>
      obtain ⟨hevaluate, hexecute⟩ := ih
      have hblock := renames_executeBlock hexecute
      constructor
      · intro expr
        cases expr with
        | simple token => exact renames_evaluateSimple r token
        | list elements =>
            exact h.bind (renames_evaluateAll hevaluate elements) fun values => h.pure _
        | call operator arguments =>
            rw [Expr.rename, evaluate, evaluate, Token.spelling_rename, r.named?,
              Token.kind_rename]
            split
            · next builtin _ => exact renames_apply hevaluate builtin arguments
            · split
              · exact renames_callFunction hevaluate hexecute operator.spelling arguments
              · exact Action.renames_fail r (.undeclaredFunction operator.spelling)
      · intro statement
        cases statement with
        | assign target value => exact renames_assign hevaluate target.spelling value
        | block body => exact hblock body
        | ifElse condition thenBlock elseBlock =>
            refine h.bind (h.evaluateCondition "if" (hevaluate condition)) fun holds => ?_
            cases holds with
            | true => exact hblock thenBlock
            | false => exact hblock elseBlock
        | «while» condition body =>
            have hcondition := h.evaluateCondition "while" (hevaluate condition)
            exact h.whileTrue hcondition (hblock body) bound
        | «repeat» count body =>
            refine h.bind (hevaluate count) fun value => ?_
            exact h.bind (h.repeatRounds value) fun rounds => h.times (hblock body) rounds
        | func name parameters body => exact renames_declareFunction r ⟨name, parameters, body⟩
        | «return» value => exact h.bind (hevaluate value) fun _ => h.pure _
        | print value =>
            have hprint := h.compositional.printLine (Action.renames_write r)
            refine h.bind (hevaluate value) fun result => ?_
            exact h.bind (hprint result.render) fun _ => h.pure _

theorem Outcome.rename_eq_unfinished_iff {α : Type} {outcome : Outcome α} :
    outcome.rename r = .unfinished ↔ outcome = .unfinished := by
  cases outcome <;> simp [rename]

/-- A renamed statement ends in the renamed context exactly if the statement ends in the context,
and then with the same flow or with the renamed error, in the renamed context that the statement
ends in, and with the same text printed. Each bound on the work is enough for both or for neither.
A renamed expression has the same value or the renamed error. -/
theorem renaming_commutes_with_running :
    (∀ (statement : Statement) (context : Context),
      (∀ bound,
        let run := execute bound statement context
        let renamed := execute bound (statement.rename r) (context.rename r)
        renamed.1 = run.1.rename r ∧ renamed.2 = run.2.rename r ∧
          renamed.2.sink = run.2.sink) ∧
      ((∃ bound, (execute bound (statement.rename r) (context.rename r)).1 ≠ .unfinished) ↔
        ∃ bound, (execute bound statement context).1 ≠ .unfinished)) ∧
    ∀ (bound : Nat) (expr : Expr) (context : Context),
      let run := evaluate bound expr context
      let renamed := evaluate bound (expr.rename r) (context.rename r)
      renamed.1 = run.1.rename r ∧ renamed.2 = run.2.rename r ∧ renamed.2.sink = run.2.sink := by
  refine ⟨fun statement context => ⟨fun bound => ?_, ?_⟩, fun bound expr context => ?_⟩
  · have hrun := (renames_run r bound).2 statement context
    exact ⟨congrArg Prod.fst hrun, congrArg Prod.snd hrun,
      congrArg (fun renamed => renamed.2.sink) hrun⟩
  · apply exists_congr
    intro bound
    rw [(renames_run r bound).2 statement context, Ne, Outcome.rename_eq_unfinished_iff]
  · have hrun := (renames_run r bound).1 expr context
    exact ⟨congrArg Prod.fst hrun, congrArg Prod.snd hrun,
      congrArg (fun renamed => renamed.2.sink) hrun⟩

/-- Exchanges the name of a variable with that of a function. -/
def exchange : Renaming :=
  .swap (show TokenKind.classify "x" = .identifier by decide +kernel)
    (show TokenKind.classify "f" = .identifier by decide +kernel)

/-- The function has a parameter with the name of the variable. -/
def callableContext : Context where
  memory := ⟨{ bindings := ⟨[("x", some (.boolean true))]⟩ }, []⟩
  functions := ⟨[("f", ⟨⟨"f"⟩, [⟨"x"⟩], [.return (.simple ⟨"x"⟩)]⟩)]⟩

/-- The call prints what it did before, and a name that is not declared is reported as renamed. -/
theorem exchanged_names_run_alike :
    let statement : Statement := .print (.call ⟨"f"⟩ [.simple ⟨"x"⟩])
    let run := execute 9 statement callableContext
    let renamed := execute 9 (statement.rename exchange) (callableContext.rename exchange)
    let failing : Expr := .simple ⟨"f"⟩
    statement.rename exchange = .print (.call ⟨"x"⟩ [.simple ⟨"f"⟩]) ∧
      run.2.sink.text = "true\n" ∧ renamed.2.sink.text = "true\n" ∧
      renamed.1 = run.1.rename exchange ∧ renamed.2 = run.2.rename exchange ∧
      (∃ bound, (execute bound (statement.rename exchange) (callableContext.rename exchange)).1 ≠
        .unfinished) ∧
      (evaluate 9 (failing.rename exchange) (callableContext.rename exchange)).1 =
        .failed (.running (.undeclaredVariable "x")) := by
  intro statement run renamed failing
  obtain ⟨hstatement, hexpr⟩ := renaming_commutes_with_running exchange
  obtain ⟨hruns, hends⟩ := hstatement statement callableContext
  obtain ⟨houtcome, hafter, hsink⟩ := hruns 9
  have htext : run.2.sink.text = "true\n" := by decide +kernel
  have hrun : run.1 ≠ .unfinished := nofun
  have hfailing : (evaluate 9 failing callableContext).1 =
      .failed (.running (.undeclaredVariable "f")) := rfl
  refine ⟨by decide +kernel, htext, ?_, houtcome, hafter, hends.2 ⟨9, hrun⟩, ?_⟩
  · rw [hsink, htext]
  · rw [(hexpr 9 failing callableContext).1, hfailing]
    rfl

end TinyScript
