import TinyScript.Proofs.Program.Calls
import TinyScript.Proofs.Run.Namespace

/-!
# Where functions come from

The registry would replace a function by another of the same name, but a declaration asks first
whether the name is taken. So what is registered stays, and a second registration never happens,
whatever it would do (`run_registerOr`). A name is new in the registry because a declaration of
this name stands in the tree that was run, or in the body of a function that was called from it
directly or through other calls (`registersWithin`).
-/

namespace TinyScript

/-! ## Fragments of programs -/

/-- What running a piece of a program may do to the registry, apart from what the functions do that
it calls. -/
structure Fragment where
  /-- The functions that are called by name. -/
  calls : List String
  /-- The functions that are declared. -/
  declares : List FunctionDecl

def Expr.fragment (expr : Expr) : Fragment := ⟨expr.calls, []⟩

def Statement.fragment (statement : Statement) : Fragment :=
  ⟨statement.calls, statement.declarations⟩

def FunctionDecl.bodyFragment (decl : FunctionDecl) : Fragment :=
  ⟨Statement.callsAll decl.body, Statement.declarationsAll decl.body⟩

namespace Fragment

/-- The fragments that a run of the first may come to. The others are bodies of functions that are
called in such a fragment, and that have been registered before or are declared in such a
fragment. -/
inductive Reaches (functions : FunctionTable) (start : Fragment) : Fragment → Prop where
  | start : Reaches functions start start
  | registered {piece : Fragment} {name : String} {decl : FunctionDecl}
      (hpiece : Reaches functions start piece) (hcall : name ∈ piece.calls)
      (hfind : functions.find? name = some decl) : Reaches functions start decl.bodyFragment
  | declared {piece other : Fragment} {decl : FunctionDecl}
      (hpiece : Reaches functions start piece) (hcall : decl.name.spelling ∈ piece.calls)
      (hother : Reaches functions start other) (hdecl : decl ∈ other.declares) :
      Reaches functions start decl.bodyFragment

/-- The other fragment is a part of this one. -/
structure Includes (piece part : Fragment) : Prop where
  calls : part.calls ⊆ piece.calls
  declares : part.declares ⊆ piece.declares

theorem Includes.trans {piece part inner : Fragment} (h : piece.Includes part)
    (hpart : part.Includes inner) : piece.Includes inner where
  calls := List.Subset.trans hpart.calls h.calls
  declares := List.Subset.trans hpart.declares h.declares

theorem Includes.refl (piece : Fragment) : piece.Includes piece :=
  ⟨List.Subset.refl _, List.Subset.refl _⟩

theorem includes_part {expr part : Expr} (h : part ∈ expr.parts) :
    expr.fragment.Includes part.fragment where
  calls := Expr.calls_of_part h
  declares := List.Subset.refl []

theorem includes_expr {statement : Statement} {expr : Expr} (h : expr ∈ statement.exprs) :
    statement.fragment.Includes expr.fragment where
  calls := Statement.calls_of_expr h
  declares := List.nil_subset _

theorem includes_member {statement member : Statement} {body : Block}
    (h : body ∈ statement.blocks) (hmember : member ∈ body) :
    statement.fragment.Includes member.fragment where
  calls := List.Subset.trans (Statement.calls_of_mem hmember) (Statement.calls_of_block h)
  declares :=
    List.Subset.trans (Statement.declarations_of_mem hmember) (Statement.declarations_of_block h)

theorem includes_body {decl : FunctionDecl} {member : Statement} (h : member ∈ decl.body) :
    decl.bodyFragment.Includes member.fragment where
  calls := Statement.calls_of_mem h
  declares := Statement.declarations_of_mem h

end Fragment

/-! ## What comes to be registered -/

/-- A fragment that is reached declares the function under this name. -/
def Fragment.Declares (start : Fragment) (functions : FunctionTable) (name : String)
    (decl : FunctionDecl) : Prop :=
  decl.name.spelling = name ∧ ∃ piece, start.Reaches functions piece ∧ decl ∈ piece.declares

/-- Each function is one of those registered before, or a fragment that is reached declares it. -/
def Context.Within (context : Context) (functions : FunctionTable) (start : Fragment) : Prop :=
  ∀ name decl, context.functions.find? name = some decl →
    functions.find? name = some decl ∨ start.Declares functions name decl

variable {functions : FunctionTable} {start piece : Fragment}

/-- The body of a function that is found by a call is reached as well. -/
theorem Context.Within.reaches {context : Context} (h : context.Within functions start)
    (hpiece : start.Reaches functions piece) {name : String} {decl : FunctionDecl}
    (hcall : name ∈ piece.calls) (hfind : context.functions.find? name = some decl) :
    start.Reaches functions decl.bodyFragment := by
  rcases h name decl hfind with hbefore | ⟨rfl, other, hother, hdecl⟩
  · exact .registered hpiece hcall hbefore
  · exact .declared hpiece hcall hother hdecl

theorem Context.Within.withFunction {context : Context} (h : context.Within functions start)
    (hpiece : start.Reaches functions piece) {decl : FunctionDecl} (hdecl : decl ∈ piece.declares)
    (memory : Memory) : (context.withFunction decl memory).Within functions start := by
  intro name found hfind
  rw [Context.withFunction, FunctionTable.register, NameTable.find?_insert] at hfind
  split at hfind
  · next hname =>
      cases hfind
      exact .inr ⟨hname.symm, piece, hpiece, hdecl⟩
  · exact h name found hfind

namespace Action

variable {α : Type}

/-- The action registers functions only that a fragment declares which is reached. -/
def RegistersWithin (functions : FunctionTable) (start : Fragment) (action : Action α) : Prop :=
  ∀ context : Context, context.Within functions start →
    (action context).2.Within functions start

theorem closed_registersWithin (functions : FunctionTable) (start : Fragment) :
    Closed fun _ action => action.RegistersWithin functions start :=
  closed_of_trans
    (fun before after => before.Within functions start → after.Within functions start)
    (fun _ => id) fun hfirst hsecond => hsecond ∘ hfirst

theorem registersWithin_of_functions {action : Action α}
    (h : ∀ context, (action context).2.functions = context.functions) :
    action.RegistersWithin functions start := by
  intro context hwithin name decl hfind
  exact hwithin name decl (h context ▸ hfind)

theorem registersWithin_declare (name : String) :
    (declare name).RegistersWithin functions start :=
  registersWithin_of_functions (functions_declare name)

theorem registersWithin_lookup (name : String) :
    (lookup name).RegistersWithin functions start :=
  registersWithin_of_functions (functions_lookup name)

theorem registersWithin_store (name : String) (value : Value) :
    (store name value).RegistersWithin functions start :=
  registersWithin_of_functions (functions_store name value)

theorem registersWithin_write (piece : String) :
    (write piece).RegistersWithin functions start :=
  registersWithin_of_functions (functions_write piece)

theorem RegistersWithin.inScope {action : Action α}
    (h : action.RegistersWithin functions start) (enter : Memory → Memory) :
    (inScope enter action).RegistersWithin functions start :=
  fun context => h { context with memory := enter context.memory }

end Action

section

variable {evaluate : Expr → Action Value} {execute : Statement → Action Flow}

theorem registersWithin_executeBlock {body : Block}
    (hexecute : ∀ statement ∈ body, (execute statement).RegistersWithin functions start) :
    (executeBlock execute body).RegistersWithin functions start :=
  ((Action.closed_registersWithin functions start).executeAll hexecute).inScope Memory.beginNested

theorem registersWithin_applyFunction {decl : FunctionDecl}
    (hexecute : ∀ statement ∈ decl.body, (execute statement).RegistersWithin functions start)
    (arguments : List Value) :
    (applyFunction execute decl arguments).RegistersWithin functions start := by
  have hbody := (Action.closed_registersWithin functions start).runBody
    Action.registersWithin_declare Action.registersWithin_store
    (registersWithin_executeBlock hexecute) arguments
  rw [applyFunction_eq]
  exact hbody.inScope Memory.beginFunction

/-- Whenever the function was registered that is called, the call comes to its body. -/
theorem registersWithin_callFunction {name : String} {arguments : List Expr}
    (hpiece : start.Reaches functions piece) (hcall : name ∈ piece.calls)
    (hevaluate : ∀ argument ∈ arguments, (evaluate argument).RegistersWithin functions start)
    (hexecute : ∀ decl : FunctionDecl, start.Reaches functions decl.bodyFragment →
      ∀ statement ∈ decl.body, (execute statement).RegistersWithin functions start) :
    (callFunction evaluate execute name arguments).RegistersWithin functions start := by
  have hclosed := Action.closed_registersWithin functions start
  intro context hwithin
  rw [callFunction_eq]
  cases hfind : context.functions.find? name with
  | none => exact hwithin
  | some decl =>
      have hbody := hexecute decl (hwithin.reaches hpiece hcall hfind)
      rw [callFound]
      split
      · exact hclosed.bind (hclosed.evaluateAll hevaluate)
          (registersWithin_applyFunction hbody) context hwithin
      · exact hwithin

theorem registersWithin_assign {name : String} {expr : Expr}
    (hevaluate : (evaluate expr).RegistersWithin functions start) :
    (assign evaluate name expr).RegistersWithin functions start := by
  have hstore := (Action.closed_registersWithin functions start).storeValue hevaluate
    (Action.registersWithin_store name)
  intro context hwithin
  rw [assign_eq]
  split
  · exact hwithin
  · apply hstore
    unfold Context.ready
    split <;> exact hwithin

end

theorem registersWithin_declareFunction (hpiece : start.Reaches functions piece)
    {decl : FunctionDecl} (hdecl : decl ∈ piece.declares) :
    (declareFunction decl).RegistersWithin functions start := by
  intro context hwithin
  rcases declareFunction_cases decl context with ⟨error, hrun⟩ | ⟨-, -, memory, -, hrun⟩
  · rw [hrun]
    exact hwithin
  · rw [hrun]
    exact hwithin.withFunction hpiece hdecl memory

/-- What belongs to a fragment that is reached registers only what such fragments declare. -/
theorem registersWithin (functions : FunctionTable) (start : Fragment) (bound : Nat) :
    (∀ piece, start.Reaches functions piece → ∀ expr, piece.Includes expr.fragment →
        (evaluate bound expr).RegistersWithin functions start) ∧
      ∀ piece, start.Reaches functions piece → ∀ statement, piece.Includes statement.fragment →
        (execute bound statement).RegistersWithin functions start := by
  have hclosed := Action.closed_registersWithin functions start
  induction bound with
  | zero => exact ⟨fun _ _ _ _ => hclosed.unfinished, fun _ _ _ _ => hclosed.unfinished⟩
  | succ bound ih =>
      obtain ⟨ihevaluate, ihexecute⟩ := ih
      constructor
      · intro piece hpiece expr hexpr
        have hparts : ∀ part ∈ expr.parts,
            (evaluate bound part).RegistersWithin functions start := fun part hpart =>
          ihevaluate piece hpiece part (hexpr.trans (Fragment.includes_part hpart))
        apply hclosed.evaluate_succ
        · intro token _ _
          exact Action.registersWithin_lookup token.spelling
        · exact hparts
        · rintro operator arguments rfl hkind
          have hcall := hexpr.calls (Expr.mem_calls hkind arguments)
          refine registersWithin_callFunction hpiece hcall hparts ?_
          intro decl hbody statement hstatement
          exact ihexecute _ hbody statement (Fragment.includes_body hstatement)
      · intro piece hpiece statement hstatement
        apply hclosed.execute_succ Action.registersWithin_write
        · intro expr hexpr
          exact ihevaluate piece hpiece expr (hstatement.trans (Fragment.includes_expr hexpr))
        · intro body hbody
          apply registersWithin_executeBlock
          intro member hmember
          exact ihexecute piece hpiece member
            (hstatement.trans (Fragment.includes_member hbody hmember))
        · rintro target value rfl
          apply registersWithin_assign
          refine ihevaluate piece hpiece value (hstatement.trans (Fragment.includes_expr ?_))
          exact List.mem_singleton.2 rfl
        · rintro decl rfl
          exact registersWithin_declareFunction hpiece
            (hstatement.declares (List.mem_singleton.2 rfl))

/-! ## No second registration -/

/-- Registers a function under a new name. What is done under a name that is taken is left open. -/
def registerOr (otherwise : FunctionDecl → Action Unit) (decl : FunctionDecl) : Action Unit :=
  fun context =>
    if context.functions.contains decl.name.spelling then otherwise decl context
    else Action.register decl context

/-- A declaration of a function that registers it so. -/
def declareFunctionOr (otherwise : FunctionDecl → Action Unit) (decl : FunctionDecl) :
    Action Flow := do
  let name := decl.name.spelling
  let context ← Action.getContext
  if context.memory.isDeclared name then
    .failRunning (.nameIsVariable name)
  else if context.functions.contains name then
    .failRunning (.functionRedeclared name)
  else
    registerOr otherwise decl
    Action.declare name
    Action.store name Value.functionMarker
    return .completed

mutual

/-- Evaluates, with such a registration in all declarations that this comes to. -/
def evaluateOr (otherwise : FunctionDecl → Action Unit) : Nat → Expr → Action Value
  | 0, _ => Action.unfinished
  | bound + 1, expr =>
    evaluateStep (evaluateOr otherwise bound) (executeOr otherwise bound) expr

/-- Executes, with such a registration in all declarations that this comes to. -/
def executeOr (otherwise : FunctionDecl → Action Unit) : Nat → Statement → Action Flow
  | 0, _ => Action.unfinished
  | _ + 1, .func name parameters body => declareFunctionOr otherwise ⟨name, parameters, body⟩
  | bound + 1, statement =>
    executeStep Action.printLine (evaluateOr otherwise bound) (executeOr otherwise bound) bound
      statement

end

theorem declareFunctionOr_eq (otherwise : FunctionDecl → Action Unit) (decl : FunctionDecl) :
    declareFunctionOr otherwise decl = declareFunction decl := by
  funext context
  change (if context.memory.isDeclared decl.name.spelling then _
    else if context.functions.contains decl.name.spelling then _ else _ : Action Flow) context =
      (if context.memory.isDeclared decl.name.spelling then _
        else if context.functions.contains decl.name.spelling then _ else _ : Action Flow) context
  split
  · rfl
  · split
    · rfl
    · next hfree =>
        have hregister : registerOr otherwise decl context = Action.register decl context :=
          if_neg hfree
        rw [Action.bind_eq, Action.bind_eq, hregister]

/-- Nothing is ever registered under a name that is taken, so what would be done then makes no
difference. -/
theorem run_registerOr (otherwise : FunctionDecl → Action Unit) (bound : Nat) :
    evaluateOr otherwise bound = evaluate bound ∧ executeOr otherwise bound = execute bound := by
  induction bound with
  | zero => exact ⟨rfl, rfl⟩
  | succ bound ih =>
      obtain ⟨ihevaluate, ihexecute⟩ := ih
      constructor
      · funext expr
        rw [evaluateOr, evaluate_succ_eq, ihevaluate, ihexecute]
      · funext statement
        rw [execute_succ_eq]
        cases statement with
        | func name parameters body => exact declareFunctionOr_eq otherwise _
        | _ =>
            rw [executeOr, ihevaluate, ihexecute]
            nofun

/-! ## All runs -/

/-- What running a fragment makes of the registry: functions stay, and others come from declarations
that the run may come to. -/
structure Fragment.Registers (start : Fragment) (before after : FunctionTable) : Prop where
  kept {name : String} {decl : FunctionDecl} :
    before.find? name = some decl → after.find? name = some decl
  declared {name : String} {decl : FunctionDecl} :
    before.find? name = none → after.find? name = some decl → start.Declares before name decl

theorem Context.Changes.registers {stored declared : List String} {before after : Context}
    (h : before.Changes stored declared after) (hwithin : after.Within before.functions start) :
    start.Registers before.functions after.functions where
  kept := h.functions _ _
  declared hnone hfind := by
    rcases hwithin _ _ hfind with hbefore | hdeclares
    · rw [hnone] at hbefore
      cases hbefore
    · exact hdeclares

theorem registers_run (bound : Nat) (context : Context) :
    (∀ expr : Expr, expr.fragment.Registers context.functions
        (evaluate bound expr context).2.functions) ∧
      ∀ statement : Statement, statement.fragment.Registers context.functions
        (execute bound statement context).2.functions := by
  have hstart (start : Fragment) : context.Within context.functions start :=
    fun _ _ hfind => .inl hfind
  constructor
  · intro expr
    have hwithin := (registersWithin context.functions expr.fragment bound).1 expr.fragment .start
      expr (.refl _) context (hstart _)
    exact ((changes bound).1 expr context).registers hwithin
  · intro statement
    have hwithin := (registersWithin context.functions statement.fragment bound).2
      statement.fragment .start statement (.refl _) context (hstart _)
    exact ((changes bound).2 statement context).registers hwithin

section

variable {sink : Sink} {past later : List (Nat × Statement)} {name : String}

theorem find?_executeProgram {decl : FunctionDecl}
    (h : (executeProgram { sink } past).functions.find? name = some decl) :
    (executeProgram { sink } (past ++ later)).functions.find? name = some decl := by
  induction later using List.reverseRecOn with
  | nil => rwa [List.append_nil]
  | append_singleton later step ih =>
      rw [← List.append_assoc, executeProgram_append]
      exact ((registers_run step.1 _).2 step.2).kept ih

/-- The name is new in the registry behind the statement. -/
def RegistersAt (sink : Sink) (past : List (Nat × Statement)) (step : Nat × Statement)
    (name : String) : Prop :=
  (executeProgram { sink } past).functions.contains name = false ∧
    (executeProgram { sink } (past ++ [step])).functions.contains name = true

theorem RegistersAt.not_later {step other : Nat × Statement}
    (h : RegistersAt sink past step name) : ¬ RegistersAt sink (past ++ step :: later) other name := by
  rintro ⟨hfree, -⟩
  obtain ⟨decl, hdecl⟩ := Option.isSome_iff_exists.1 h.2
  have hlater : (executeProgram { sink } ((past ++ [step]) ++ later)).functions.find? name =
      some decl := find?_executeProgram hdecl
  rw [List.append_assoc, List.singleton_append] at hlater
  rw [NameTable.contains, hlater] at hfree
  cases hfree

/-- Of the statements of a program only one makes the name new. -/
theorem RegistersAt.unique {step other : Nat × Statement} {before after : List (Nat × Statement)}
    (h : RegistersAt sink past step name) (hother : RegistersAt sink before other name)
    (hsteps : past ++ step :: later = before ++ other :: after) : past = before := by
  rcases List.append_eq_append_iff.1 hsteps with ⟨middle, rfl, hmiddle⟩ | ⟨middle, rfl, hmiddle⟩
  · cases middle with
    | nil => exact (List.append_nil past).symm
    | cons first middle =>
        obtain ⟨rfl, -⟩ := List.cons.inj hmiddle
        exact absurd hother h.not_later
  · cases middle with
    | nil => exact List.append_nil before
    | cons first middle =>
        obtain ⟨rfl, -⟩ := List.cons.inj hmiddle
        exact absurd h hother.not_later

end

/-- Whatever is run and however it ends, functions stay in the registry as they are, and a name that
is new there belongs to a declaration in the tree, or in the body of a function that the run could
come to. No name is registered while it is taken, and of all statements that are executed one after
the other at most one registers it. -/
theorem registered_functions_are_permanent :
    (∀ (bound : Nat) (context : Context),
      (∀ expr : Expr, expr.fragment.Registers context.functions
          (evaluate bound expr context).2.functions) ∧
        ∀ statement : Statement, statement.fragment.Registers context.functions
          (execute bound statement context).2.functions) ∧
      (∀ (otherwise : FunctionDecl → Action Unit) (bound : Nat),
        evaluateOr otherwise bound = evaluate bound ∧
          executeOr otherwise bound = execute bound) ∧
      ∀ (sink : Sink) (past later : List (Nat × Statement)) (name : String),
        (∀ decl, (executeProgram { sink } past).functions.find? name = some decl →
          (executeProgram { sink } (past ++ later)).functions.find? name = some decl) ∧
        ∀ step before other after, past ++ step :: later = before ++ other :: after →
          RegistersAt sink past step name → RegistersAt sink before other name →
            past = before :=
  ⟨registers_run, run_registerOr, fun _ _ _ _ => ⟨fun _ => find?_executeProgram,
    fun _ _ _ _ hsteps h hother => h.unique hother hsteps⟩⟩

/-- Declares a function in the body of another, and then calls that one three times. -/
def nestingProgram : List (Nat × Statement) :=
  [(9, .func ⟨"f"⟩ [] [.func ⟨"g"⟩ [] [], .return (.simple ⟨"1"⟩)]),
    (9, .print (.call ⟨"=="⟩ [.call ⟨"f"⟩ [], .call ⟨"f"⟩ [], .call ⟨"f"⟩ []])),
    (9, .print (.call ⟨"f"⟩ []))]

theorem nested_function_registered_once :
    RegistersAt .unlimited (nestingProgram.take 1) (nestingProgram[1]) "g" ∧
      (∀ before other after, nestingProgram = before ++ other :: after →
        RegistersAt .unlimited before other "g" → nestingProgram.take 1 = before) ∧
      (executeProgram {} (nestingProgram.take 2)).functions.find? "g" = some ⟨⟨"g"⟩, [], []⟩ ∧
      (executeProgram {} nestingProgram).functions.find? "g" = some ⟨⟨"g"⟩, [], []⟩ := by
  obtain ⟨-, -, hruns⟩ := registered_functions_are_permanent
  have hregisters : RegistersAt .unlimited (nestingProgram.take 1) (nestingProgram[1]) "g" :=
    ⟨by decide +kernel, by decide +kernel⟩
  have hfind : (executeProgram {} (nestingProgram.take 2)).functions.find? "g" =
      some ⟨⟨"g"⟩, [], []⟩ := by decide +kernel
  refine ⟨hregisters, fun before other after hsteps hother => ?_, hfind, ?_⟩
  · exact (hruns .unlimited _ (nestingProgram.drop 2) "g").2 _ before other after hsteps hregisters
      hother
  · exact (hruns .unlimited (nestingProgram.take 2) (nestingProgram.drop 2) "g").1 _ hfind

end TinyScript
