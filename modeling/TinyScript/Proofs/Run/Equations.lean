import TinyScript.Proofs.Memory.Lookup
import TinyScript.Run.Evaluate

/-!
# Running, part by part

Calls, assignments, declarations and loops in terms of smaller actions. What looks at the context
before it decides what to do is an equation at that context.
-/

namespace TinyScript

theorem Action.bind_eq {α β : Type} (action : Action α) (next : α → Action β)
    (context : Context) :
    (action >>= next) context =
      match action context with
      | (.done result, middle) => next result middle
      | (.failed error, middle) => (.failed error, middle)
      | (.unfinished, middle) => (.unfinished, middle) := rfl

def Action.getMemory : Action Memory := fun context =>
  (.done context.memory, context)

def Action.getFunctions : Action FunctionTable := fun context =>
  (.done context.functions, context)

/-! ## Accesses that leave the registry alone -/

namespace Action

@[simp] theorem functions_lookup (name : String) (context : Context) :
    (lookup name context).2.functions = context.functions := by
  change (ofExcept (context.memory.lookup name) context).2.functions = context.functions
  cases context.memory.lookup name <;> rfl

@[simp] theorem functions_declare (name : String) (context : Context) :
    (declare name context).2.functions = context.functions := rfl

@[simp] theorem functions_store (name : String) (value : Value) (context : Context) :
    (store name value context).2.functions = context.functions := by
  unfold store
  split <;> rfl

@[simp] theorem functions_write (piece : String) (context : Context) :
    (write piece context).2.functions = context.functions := by
  unfold write
  split <;> rfl

end Action

/-! ## Loops -/

namespace Flow

theorem times_succ (body : Action Flow) (rounds : Nat) :
    times body (rounds + 1) = andThen body (times body rounds) := by
  funext context
  rw [times, andThen]
  change _ = Action.bind body _ context
  unfold Action.bind
  dsimp only
  rcases body context with ⟨⟨_ | value⟩ | error | _, after⟩ <;> rfl

theorem whileTrue_succ (condition : Action Bool) (body : Action Flow) (rounds : Nat) :
    whileTrue condition body (rounds + 1) = condition >>= fun holds =>
      if holds then andThen body (whileTrue condition body rounds) else pure .completed := by
  funext context
  rw [whileTrue]
  change _ = Action.bind condition _ context
  unfold Action.bind
  dsimp only
  rcases condition context with ⟨⟨_ | _⟩ | error | _, middle⟩
  · rfl
  · change _ = Action.bind body _ middle
    unfold Action.bind
    dsimp only
    rcases body middle with ⟨⟨_ | value⟩ | error | _, after⟩ <;> rfl
  · rfl
  · rfl

end Flow

/-! ## Calls -/

/-- What a call does in the frame of the function. -/
def runBody (execute : Statement → Action Flow) (decl : FunctionDecl) (arguments : List Value) :
    Action Value := do
  bindParameters decl.parameters arguments
  match ← executeBlock execute decl.body with
  | .returning value => return value
  | .completed => return .boolean true

theorem applyFunction_eq (execute : Statement → Action Flow) (decl : FunctionDecl)
    (arguments : List Value) :
    applyFunction execute decl arguments =
      Action.inScope Memory.beginFunction (runBody execute decl arguments) := rfl

/-- Calls what was found under the name of a function. -/
def callFound (evaluate : Expr → Action Value) (execute : Statement → Action Flow)
    (name : String) (arguments : List Expr) : Option FunctionDecl → Action Value
  | none => .failRunning (.undeclaredFunction name)
  | some decl =>
    if decl.parameters.length = arguments.length then
      evaluateAll evaluate arguments >>= applyFunction execute decl
    else
      .failRunning (.incorrectArity name (toString decl.parameters.length) arguments.length)

theorem callFunction_eq (evaluate : Expr → Action Value) (execute : Statement → Action Flow)
    (name : String) (arguments : List Expr) (context : Context) :
    callFunction evaluate execute name arguments context =
      callFound evaluate execute name arguments (context.functions.find? name) context := by
  unfold callFunction
  change (match context.functions.find? name with
    | none => _
    | some decl => _ : Action Value) context = _
  cases context.functions.find? name <;> rfl

theorem callFunction_eq_bind (evaluate : Expr → Action Value) (execute : Statement → Action Flow)
    (name : String) (arguments : List Expr) :
    callFunction evaluate execute name arguments = Action.getFunctions >>= fun functions =>
      callFound evaluate execute name arguments (functions.find? name) :=
  funext fun context => callFunction_eq evaluate execute name arguments context

/-! ## Assignments -/

/-- Evaluates and stores what was evaluated. -/
def storeValue (evaluate : Expr → Action Value) (name : String) (expr : Expr) : Action Flow := do
  Action.store name (← evaluate expr)
  return .completed

/-- The context in which the value of an assignment is computed: the name is declared. -/
def Context.ready (context : Context) (name : String) : Context :=
  if context.memory.isDeclared name then context
  else { context with memory := context.memory.declare name }

theorem assign_eq (evaluate : Expr → Action Value) (name : String) (expr : Expr)
    (context : Context) :
    assign evaluate name expr context =
      if context.functions.contains name then
        (.failed (.running (.nameIsFunction name)), context)
      else storeValue evaluate name expr (context.ready name) := by
  change (if context.functions.contains name then _ else _ : Action Flow) context = _
  split
  · rfl
  · unfold Context.ready
    cases context.memory.isDeclared name <;> rfl

theorem assign_eq_bind (evaluate : Expr → Action Value) (name : String) (expr : Expr) :
    assign evaluate name expr = Action.getMemory >>= fun memory =>
      Action.getFunctions >>= fun functions =>
        if functions.contains name then .failRunning (.nameIsFunction name)
        else if memory.isDeclared name then storeValue evaluate name expr
        else Action.declare name >>= fun _ => storeValue evaluate name expr := by
  funext context
  change _ = (if context.functions.contains name then _ else _ : Action Flow) context
  rw [assign_eq, Context.ready]
  split
  · rfl
  · cases context.memory.isDeclared name <;> rfl

theorem storeValue_eq (evaluate : Expr → Action Value) (name : String) (expr : Expr)
    (context : Context) :
    storeValue evaluate name expr context =
      match evaluate expr context with
      | (.done value, middle) =>
        match middle.memory.store name value with
        | .ok memory => (.done .completed, { middle with memory })
        | .error error => (.failed (.running error), middle)
      | (.failed error, middle) => (.failed error, middle)
      | (.unfinished, middle) => (.unfinished, middle) := by
  change Action.bind (evaluate expr) _ context = _
  unfold Action.bind
  rcases evaluate expr context with ⟨value | error | _, middle⟩
  · change Action.bind (Action.store name value) _ middle = _
    unfold Action.bind Action.store
    dsimp only
    cases middle.memory.store name value <;> rfl
  · rfl
  · rfl

theorem Context.isDeclared_ready (context : Context) (name : String) :
    (context.ready name).memory.isDeclared name = true := by
  unfold ready
  split
  · assumption
  · simp [Memory.isDeclared_declare]

/-! ## Declarations of functions -/

/-- A function has been declared under its name. -/
def Context.withFunction (context : Context) (decl : FunctionDecl) (memory : Memory) : Context :=
  ⟨memory, FunctionTable.register context.functions decl, context.sink⟩

theorem declareFunction_eq (decl : FunctionDecl) (context : Context) :
    declareFunction decl context =
      if context.memory.isDeclared decl.name.spelling then
        (.failed (.running (.nameIsVariable decl.name.spelling)), context)
      else if context.functions.contains decl.name.spelling then
        (.failed (.running (.functionRedeclared decl.name.spelling)), context)
      else
        (do
          Action.store decl.name.spelling Value.functionMarker
          return Flow.completed)
        (context.withFunction decl (context.memory.declare decl.name.spelling)) := by
  change (if context.memory.isDeclared decl.name.spelling then _
    else if context.functions.contains decl.name.spelling then _ else _ : Action Flow) context = _
  split
  · rfl
  · split
    · rfl
    · rfl

theorem declareFunction_eq_bind (decl : FunctionDecl) :
    declareFunction decl = Action.getMemory >>= fun memory =>
      Action.getFunctions >>= fun functions =>
        if memory.isDeclared decl.name.spelling then
          .failRunning (.nameIsVariable decl.name.spelling)
        else if functions.contains decl.name.spelling then
          .failRunning (.functionRedeclared decl.name.spelling)
        else do
          Action.register decl
          Action.declare decl.name.spelling
          Action.store decl.name.spelling Value.functionMarker
          return .completed := rfl

/-- A declaration that is not refused registers the function and leaves the mark in memory. -/
theorem declareFunction_of_new {decl : FunctionDecl} {context : Context}
    (hdeclared : context.memory.isDeclared decl.name.spelling = false)
    (hfree : context.functions.contains decl.name.spelling = false) :
    ∃ memory, (context.memory.declare decl.name.spelling).store decl.name.spelling
        Value.functionMarker = .ok memory ∧
      declareFunction decl context = (.done .completed, context.withFunction decl memory) := by
  obtain ⟨memory, hmemory⟩ :=
    context.memory.exists_store_declare decl.name.spelling Value.functionMarker
  refine ⟨memory, hmemory, ?_⟩
  rw [declareFunction_eq, hdeclared, hfree]
  change Action.bind (Action.store decl.name.spelling Value.functionMarker) _ _ = _
  unfold Action.bind Action.store
  rw [Context.withFunction, hmemory]
  rfl

/-- A declaration is refused, with nothing changed, or the function is new. -/
theorem declareFunction_cases (decl : FunctionDecl) (context : Context) :
    (∃ error, declareFunction decl context = (.failed error, context)) ∨
      context.memory.isDeclared decl.name.spelling = false ∧
        context.functions.contains decl.name.spelling = false ∧
        ∃ memory, (context.memory.declare decl.name.spelling).store decl.name.spelling
            Value.functionMarker = .ok memory ∧
          declareFunction decl context = (.done .completed, context.withFunction decl memory) := by
  by_cases hdeclared : context.memory.isDeclared decl.name.spelling = true
  · rw [declareFunction_eq, if_pos hdeclared]
    exact .inl ⟨_, rfl⟩
  · by_cases hfree : context.functions.contains decl.name.spelling = true
    · rw [declareFunction_eq, if_neg hdeclared, if_pos hfree]
      exact .inl ⟨_, rfl⟩
    · rw [Bool.not_eq_true] at hdeclared hfree
      exact .inr ⟨hdeclared, hfree, declareFunction_of_new hdeclared hfree⟩

/-! ## Expressions and statements -/

/-- What evaluating an expression comes to if its parts and the functions it calls are run by the
given functions. -/
def evaluateStep (evaluate : Expr → Action Value) (execute : Statement → Action Flow) :
    Expr → Action Value
  | .simple token => evaluateSimple token
  | .list elements => return .list (← evaluateAll evaluate elements)
  | .call operator arguments =>
    match Builtin.named? operator.spelling with
    | some builtin => builtin.apply evaluate arguments
    | none =>
      if operator.kind = .identifier then callFunction evaluate execute operator.spelling arguments
      else .failRunning (.undeclaredFunction operator.spelling)

/-- What executing a statement comes to if its parts are run by the given functions, lines are
printed by another one and loops have that many rounds at most. -/
def executeStep (print : String → Action Unit) (evaluate : Expr → Action Value)
    (execute : Statement → Action Flow) (rounds : Nat) : Statement → Action Flow
  | .assign target value => assign evaluate target.spelling value
  | .block body => executeBlock execute body
  | .ifElse condition thenBlock elseBlock => do
    if ← evaluateCondition evaluate "if" condition then executeBlock execute thenBlock
    else executeBlock execute elseBlock
  | .while condition body =>
    Flow.whileTrue (evaluateCondition evaluate "while" condition) (executeBlock execute body) rounds
  | .repeat count body => do
    Flow.times (executeBlock execute body) (← repeatRounds (← evaluate count))
  | .func name parameters body => declareFunction ⟨name, parameters, body⟩
  | .return value => return .returning (← evaluate value)
  | .print value => do
    print (← evaluate value).render
    return .completed

theorem evaluate_succ_eq (bound : Nat) (expr : Expr) :
    evaluate (bound + 1) expr = evaluateStep (evaluate bound) (execute bound) expr := by
  cases expr <;> rfl

theorem evaluate_variable {token : Token} {context : Context} {value : Value}
    (hkind : token.kind = .identifier) (h : context.memory.lookup token.spelling = .ok value)
    (bound : Nat) : evaluate (bound + 1) (.simple token) context = (.done value, context) := by
  change evaluateSimple token context = _
  rw [evaluateSimple, if_pos hkind]
  change Action.ofExcept (context.memory.lookup token.spelling) context = _
  rw [h]
  rfl

theorem evaluate_builtin {operator : Token} {builtin : Builtin}
    (h : Builtin.named? operator.spelling = some builtin) (bound : Nat) (arguments : List Expr) :
    evaluate (bound + 1) (.call operator arguments) =
      builtin.apply (evaluate bound) arguments := by
  rw [evaluate_succ_eq, evaluateStep, h]

theorem execute_succ_eq (bound : Nat) (statement : Statement) :
    execute (bound + 1) statement =
      executeStep Action.printLine (evaluate bound) (execute bound) bound statement := by
  cases statement <;> rfl

/-! ## Outside all functions -/

theorem executeTopLevel_eq (bound : Nat) (statement : Statement) (context : Context) :
    executeTopLevel bound statement context =
      match execute bound statement context with
      | (.done .completed, after) => (.done (), after)
      | (.done (.returning _), after) => (.failed .returnOutsideFunction, after)
      | (.failed error, after) => (.failed error, after)
      | (.unfinished, after) => (.unfinished, after) := by
  rw [executeTopLevel, Action.bind_eq]
  rcases execute bound statement context with ⟨⟨_ | value⟩ | error | _, after⟩ <;> rfl

/-! ## How an action ended

Values are compared with `==`, which takes the two zeros for one number, and not by identity. But it
can be decided whether an action failed in a given way or came to a given truth value.
-/

namespace Outcome

def isFailedWith {α : Type} (error : Error) : Outcome α → Bool
  | .failed other => other = error
  | .done _ | .unfinished => false

def isTruthValue (b : Bool) : Outcome Value → Bool
  | .done (.boolean c) => c = b
  | _ => false

theorem isFailedWith_iff {α : Type} {error : Error} {outcome : Outcome α} :
    outcome.isFailedWith error = true ↔ outcome = .failed error := by
  cases outcome <;> simp [isFailedWith]

theorem isTruthValue_iff {b : Bool} {outcome : Outcome Value} :
    outcome.isTruthValue b = true ↔ outcome = .done (.boolean b) := by
  rcases outcome with (_ | _ | _ | _ | _) | _ | _ <;> simp [isTruthValue]

instance {α : Type} (outcome : Outcome α) (error : Error) : Decidable (outcome = .failed error) :=
  decidable_of_iff _ isFailedWith_iff

instance (outcome : Outcome Value) (b : Bool) : Decidable (outcome = .done (.boolean b)) :=
  decidable_of_iff _ isTruthValue_iff

end Outcome

end TinyScript
