import TinyScript.Proofs.Run.Effects

/-!
# What running depends on

Two runs of a statement differ only if something that the statement can see differs: the functions,
the sink, or a variable under one of its own names. Whether the order of registration counts for the
functions is left open (`FunctionTable.Likeness`). Contexts that agree on these stay so while both
runs go on, step for step, and the runs end in the same way (`outcome_determined_by_names`). The
frames of a call start out empty, so a call sees nothing but its arguments.
-/

namespace TinyScript

/-- What makes tables of functions look the same to a run: they have the same functions, and stay
like each other while both register the same. -/
structure FunctionTable.Likeness where
  Rel : FunctionTable → FunctionTable → Prop
  find?_eq {first second : FunctionTable} (h : Rel first second) (name : String) :
    second.find? name = first.find? name
  register {first second : FunctionTable} (h : Rel first second) (decl : FunctionDecl) :
    Rel (first.register decl) (second.register decl)

namespace FunctionTable.Likeness

/-- The tables have the same entries in the same order. -/
def identical : Likeness where
  Rel first second := second = first
  find?_eq h _ := by rw [h]
  register h _ := by rw [h]

/-- The tables have the same functions, in whatever order they were registered. -/
def sameFunctions : Likeness where
  Rel first second := ∀ name, second.find? name = first.find? name
  find?_eq h := h
  register h decl name := by
    rw [FunctionTable.register, FunctionTable.register, NameTable.find?_insert,
      NameTable.find?_insert, h]

theorem contains_eq (like : Likeness) {first second : FunctionTable} (h : like.Rel first second)
    (name : String) : second.contains name = first.contains name := by
  rw [NameTable.contains, NameTable.contains, like.find?_eq h]

end FunctionTable.Likeness

variable {like : FunctionTable.Likeness} {names : String → Prop}

/-- The contexts look the same to anything that uses only the given names. -/
structure Context.Agree (like : FunctionTable.Likeness) (names : String → Prop)
    (first second : Context) : Prop where
  functions : like.Rel first.functions second.functions
  sink : second.sink = first.sink
  visible : ∀ name, names name → second.memory.visible name = first.memory.visible name

theorem Context.Agree.isDeclared {first second : Context} (h : first.Agree like names second)
    {name : String} (hname : names name) :
    second.memory.isDeclared name = first.memory.isDeclared name :=
  Memory.isDeclared_congr (h.visible name hname)

/-- Contexts that agree still do so after changes to the memories that show the same. -/
theorem Context.Agree.withMemory {first second : Context} (h : first.Agree like names second)
    {memory other : Memory}
    (hvisible : ∀ name, names name → other.binding? name = memory.binding? name) :
    Context.Agree like names { first with memory } { second with memory := other } where
  functions := h.functions
  sink := h.sink
  visible name hname := Memory.visible_eq_iff.2 (hvisible name hname)

theorem Context.Agree.binding? {first second : Context} (h : first.Agree like names second)
    {name : String} (hname : names name) :
    second.memory.binding? name = first.memory.binding? name :=
  Memory.visible_eq_iff.1 (h.visible name hname)

theorem Context.Agree.declare {first second : Context} (h : first.Agree like names second)
    (name : String) :
    Context.Agree like names { first with memory := first.memory.declare name }
      { second with memory := second.memory.declare name } := by
  apply h.withMemory
  intro other hother
  rw [Memory.binding?_declare, Memory.binding?_declare, h.binding? hother]

/-! ## Actions -/

namespace Action

variable {α : Type}

/-- From contexts that agree the action ends in the same way, and in contexts that agree. -/
def Respects (like : FunctionTable.Likeness) (names : String → Prop) (action : Action α) : Prop :=
  ∀ first second : Context, first.Agree like names second →
    (action second).1 = (action first).1 ∧ (action first).2.Agree like names (action second).2

theorem closed_respects (like : FunctionTable.Likeness) (names : String → Prop) :
    Closed fun _ action => action.Respects like names where
  toCompositional := (congruence_simulates _).compositional
  fail := simulates_fail _

theorem respects_lookup {name : String} (hname : names name) :
    (lookup name).Respects like names := by
  intro first second h
  have hlookup : second.memory.lookup name = first.memory.lookup name := by
    rw [Memory.lookup, Memory.lookup, h.visible name hname]
  unfold lookup
  rw [hlookup]
  cases first.memory.lookup name with
  | ok value => exact ⟨rfl, h⟩
  | error error => exact ⟨rfl, h⟩

theorem respects_declare (name : String) : (declare name).Respects like names :=
  fun _ _ h => ⟨rfl, h.declare name⟩

theorem respects_store {name : String} (hname : names name) (value : Value) :
    (store name value).Respects like names := by
  intro first second h
  have hsame := h.isDeclared hname
  unfold store
  rcases hdeclared : first.memory.isDeclared name with _ | _
  · rw [Memory.store_of_undeclared hdeclared, Memory.store_of_undeclared (hsame.trans hdeclared)]
    exact ⟨rfl, h⟩
  · obtain ⟨memory, hmemory⟩ := Memory.exists_store hdeclared value
    obtain ⟨other, hother⟩ := Memory.exists_store (hsame.trans hdeclared) value
    rw [hmemory, hother]
    refine ⟨rfl, h.withMemory ?_⟩
    intro seen hseen
    rw [Memory.binding?_store hmemory, Memory.binding?_store hother, h.binding? hseen]

theorem respects_write (piece : String) : (write piece).Respects like names := by
  intro first second h
  unfold write
  rw [h.sink]
  cases first.sink.write? piece with
  | none => exact ⟨rfl, h⟩
  | some sink => exact ⟨rfl, h.functions, rfl, h.visible⟩

/-- Behind a block the same names are visible in both runs, and with the same values. -/
theorem Respects.inScope {action : Action α} {stored declared : List String}
    (h : action.Respects like names) (hchanges : action.Changes stored declared) :
    (inScope Memory.beginNested action).Respects like names := by
  intro first second hagree
  have hinner : Context.Agree like names { first with memory := first.memory.beginNested }
      { second with memory := second.memory.beginNested } := by
    apply hagree.withMemory
    intro name hname
    rw [Memory.binding?_beginNested, Memory.binding?_beginNested, hagree.binding? hname]
  obtain ⟨houtcome, hafter⟩ := h _ _ hinner
  refine ⟨houtcome, hafter.withMemory ?_⟩
  intro name hname
  have hfirst := (hchanges { first with memory := first.memory.beginNested }).memory.nestedIn
  have hsecond := (hchanges { second with memory := second.memory.beginNested }).memory.nestedIn
  rw [hfirst.binding?_endScope, hsecond.binding?_endScope, hagree.isDeclared hname,
    hafter.binding? hname]

/-- Nothing is visible at the start of a call, so it runs the same whatever was visible before. -/
theorem respects_inFunction {action : Action α} (h : action.Respects like fun _ => True)
    (hstays : ∀ below, action.StaysOver below) :
    (inScope Memory.beginFunction action).Respects like names := by
  intro first second hagree
  have hinner : Context.Agree like (fun _ => True)
      { first with memory := first.memory.beginFunction }
      { second with memory := second.memory.beginFunction } := by
    refine ⟨hagree.functions, hagree.sink, fun name _ => Memory.visible_eq_iff.2 ?_⟩
    rw [Memory.binding?_beginFunction, Memory.binding?_beginFunction]
  obtain ⟨houtcome, hafter⟩ := h _ _ hinner
  refine ⟨houtcome, hafter.functions, hafter.sink, ?_⟩
  have hmemory : ∀ context : Context,
      (inScope Memory.beginFunction action context).2.memory = context.memory := fun context =>
    (StaysOver.changes_inScope hstays context).memory_eq
  rw [hmemory, hmemory]
  exact hagree.visible

end Action

/-! ## Programs -/

section

variable {evaluate : Expr → Action Value} {execute : Statement → Action Flow}

theorem respects_executeBlock {body : Block} {stored declared : List String}
    (hexecute : ∀ statement ∈ body, (execute statement).Respects like names)
    (hchanges : (executeAll execute body).Changes stored declared) :
    (executeBlock execute body).Respects like names :=
  ((Action.closed_respects like names).executeAll hexecute).inScope hchanges

theorem respects_runBody {decl : FunctionDecl}
    (hbody : (executeBlock execute decl.body).Respects like fun _ => True)
    (arguments : List Value) :
    (runBody execute decl arguments).Respects like fun _ => True :=
  (Action.closed_respects like _).runBody Action.respects_declare
    (fun _ => Action.respects_store trivial) hbody arguments

theorem respects_applyFunction {decl : FunctionDecl} {stored declared : List String}
    (hbody : (executeBlock execute decl.body).Respects like fun _ => True)
    (hchanges : (executeBlock execute decl.body).Changes stored declared)
    (arguments : List Value) : (applyFunction execute decl arguments).Respects like names := by
  rw [applyFunction_eq]
  apply Action.respects_inFunction (respects_runBody hbody arguments)
  exact fun below => staysOver_runBody hchanges arguments

theorem respects_callFunction {name : String} {arguments : List Expr}
    (hevaluate : ∀ argument ∈ arguments, (evaluate argument).Respects like names)
    (hbody : ∀ (decl : FunctionDecl) (values : List Value),
      (applyFunction execute decl values).Respects like names) :
    (callFunction evaluate execute name arguments).Respects like names := by
  have hclosed := Action.closed_respects like names
  intro first second h
  rw [callFunction_eq, callFunction_eq, like.find?_eq h.functions]
  cases first.functions.find? name with
  | none => exact ⟨rfl, h⟩
  | some decl =>
      rw [callFound]
      split
      · exact hclosed.bind (hclosed.evaluateAll hevaluate) (hbody decl) first second h
      · exact ⟨rfl, h⟩

theorem Context.Agree.ready {first second : Context} (h : first.Agree like names second)
    {name : String} (hname : names name) :
    (first.ready name).Agree like names (second.ready name) := by
  unfold Context.ready
  rw [h.isDeclared hname]
  split
  · exact h
  · exact h.declare name

theorem respects_assign {name : String} {expr : Expr} (hname : names name)
    (hevaluate : (evaluate expr).Respects like names) :
    (assign evaluate name expr).Respects like names := by
  intro first second h
  rw [assign_eq, assign_eq, like.contains_eq h.functions]
  split
  · exact ⟨rfl, h⟩
  · have hstore := (Action.closed_respects like names).storeValue hevaluate
      (Action.respects_store hname)
    exact hstore _ _ (h.ready hname)

end

theorem respects_declareFunction {decl : FunctionDecl} (hname : names decl.name.spelling) :
    (declareFunction decl).Respects like names := by
  intro first second h
  have hclosed := Action.closed_respects like names
  rw [declareFunction_eq, declareFunction_eq, h.isDeclared hname,
    like.contains_eq h.functions]
  split
  · exact ⟨rfl, h⟩
  · split
    · exact ⟨rfl, h⟩
    · have hready : Context.Agree like names
          (first.withFunction decl (first.memory.declare decl.name.spelling))
          (second.withFunction decl (second.memory.declare decl.name.spelling)) := by
        exact ⟨like.register h.functions decl, h.sink, (h.declare decl.name.spelling).visible⟩
      have hstore := hclosed.bind (Action.respects_store hname Value.functionMarker) fun _ =>
        hclosed.pure Flow.completed
      exact hstore _ _ hready

/-- A block uses the names that its statements use. -/
theorem respects_block {bound : Nat} {body : Block}
    (hexecute : ∀ statement, (∀ name ∈ statement.reads, names name) →
      (∀ name ∈ statement.writes, names name) → (execute bound statement).Respects like names)
    (hreads : ∀ name ∈ Statement.readsAll body, names name)
    (hwrites : ∀ name ∈ Statement.writesAll body, names name) :
    (executeBlock (execute bound) body).Respects like names := by
  refine respects_executeBlock ?_
    (changes_executeAll fun statement _ => (changes bound).2 statement)
  intro statement hstatement
  apply hexecute statement
  · intro name hname
    exact hreads name (Statement.reads_subset_all hstatement hname)
  · intro name hname
    exact hwrites name (Statement.writes_subset_all hstatement hname)

theorem respects_call {bound : Nat}
    (hexecute : ∀ statement, (execute bound statement).Respects like fun _ => True)
    (decl : FunctionDecl) (values : List Value) :
    (applyFunction (execute bound) decl values).Respects like names := by
  apply respects_applyFunction
  · exact respects_block (fun statement _ _ => hexecute statement) (fun _ _ => trivial)
      fun _ _ => trivial
  · exact changes_executeBlock fun statement _ => (changes bound).2 statement

theorem respects (like : FunctionTable.Likeness) (bound : Nat) :
    (∀ (names : String → Prop) (expr : Expr), (∀ name ∈ expr.reads, names name) →
      (evaluate bound expr).Respects like names) ∧
    ∀ (names : String → Prop) (statement : Statement),
      (∀ name ∈ statement.reads, names name) → (∀ name ∈ statement.writes, names name) →
      (execute bound statement).Respects like names := by
  induction bound with
  | zero =>
      exact ⟨fun names _ _ => (Action.closed_respects like names).unfinished,
        fun names _ _ _ => (Action.closed_respects like names).unfinished⟩
  | succ bound ih =>
      obtain ⟨ihevaluate, ihexecute⟩ := ih
      constructor
      · intro names expr hreads
        have hpart : ∀ part ∈ expr.parts, (evaluate bound part).Respects like names := by
          intro part hpart
          apply ihevaluate
          exact fun name hname => hreads name (Expr.reads_of_part hpart hname)
        apply (Action.closed_respects like names).evaluate_succ
        · rintro token rfl hkind
          exact Action.respects_lookup (hreads _ (by simp [Expr.reads, hkind]))
        · exact hpart
        · rintro operator arguments rfl _
          apply respects_callFunction hpart
          exact respects_call fun statement =>
            ihexecute _ statement (fun _ _ => trivial) fun _ _ => trivial
      · intro names statement hreads hwrites
        apply (Action.closed_respects like names).execute_succ Action.respects_write
        · intro expr hexpr
          apply ihevaluate
          exact fun name hname => hreads name (Statement.reads_of_expr hexpr hname)
        · intro body hbody
          apply respects_block (ihexecute names)
          · exact fun name hname => hreads name (Statement.reads_of_block hbody hname)
          · exact fun name hname => hwrites name (Statement.writes_of_block hbody hname)
        · rintro target value rfl
          apply respects_assign
          · exact hwrites _ (by simp [Statement.writes])
          · exact ihevaluate names value hreads
        · rintro decl rfl
          exact respects_declareFunction
            (hwrites _ (by simp [FunctionDecl.toStatement, Statement.writes]))

/-- How a run ends and what it leaves behind is determined by the functions, the sink and what is
visible under the names in the program. A call is determined without the latter, and its caller
finds its variables as they were. The functions may be told apart by the order of their
registration, and then they agree in the end in this as well, or by nothing but what is found under
their names. -/
theorem outcome_determined_by_names (like : FunctionTable.Likeness) :
    (∀ (bound : Nat) (statement : Statement) (first second : Context),
      first.Agree like (· ∈ statement.names) second →
        (execute bound statement second).1 = (execute bound statement first).1 ∧
          (execute bound statement first).2.Agree like (· ∈ statement.names)
            (execute bound statement second).2) ∧
    (∀ (bound : Nat) (expr : Expr) (first second : Context),
      first.Agree like (· ∈ expr.reads) second →
        (evaluate bound expr second).1 = (evaluate bound expr first).1 ∧
          (evaluate bound expr first).2.Agree like (· ∈ expr.reads)
            (evaluate bound expr second).2) ∧
    ∀ (bound : Nat) (decl : FunctionDecl) (arguments : List Value) (first second : Context),
      like.Rel first.functions second.functions → second.sink = first.sink →
        let call := applyFunction (execute bound) decl arguments
        (call second).1 = (call first).1 ∧
          like.Rel (call first).2.functions (call second).2.functions ∧
          (call second).2.sink = (call first).2.sink ∧
          (call first).2.memory = first.memory ∧ (call second).2.memory = second.memory := by
  refine ⟨?_, ?_, ?_⟩
  · intro bound statement first second h
    refine (respects like bound).2 _ statement ?_ ?_ first second h
    · intro name hname
      exact List.mem_append_left _ hname
    · intro name hname
      exact List.mem_append_right _ hname
  · intro bound expr first second h
    exact (respects like bound).1 _ expr (fun _ hname => hname) first second h
  · intro bound decl arguments first second hfunctions hsink call
    have hagree : first.Agree like (fun _ => False) second :=
      ⟨hfunctions, hsink, fun _ hname => hname.elim⟩
    have hchanges := changes_executeBlock fun statement (_ : statement ∈ decl.body) =>
      (changes bound).2 statement
    have hcall : (applyFunction (execute bound) decl arguments).Respects like fun _ => False :=
      respects_call (fun statement =>
        (respects like bound).2 _ statement (fun _ _ => trivial) fun _ _ => trivial) decl arguments
    obtain ⟨houtcome, hafter⟩ := hcall first second hagree
    exact ⟨houtcome, hafter.functions, hafter.sink,
      (changes_applyFunction hchanges arguments first).memory_eq,
      (changes_applyFunction hchanges arguments second).memory_eq⟩

/-- The function gives its argument back. -/
def mirror : FunctionDecl := ⟨⟨"f"⟩, [⟨"a"⟩], [.return (.simple ⟨"a"⟩)]⟩

/-- The function has no body. -/
def idle : FunctionDecl := ⟨⟨"g"⟩, [], []⟩

/-- A variable outside all scopes, and beside it one that the other context does not have. -/
def plainContext : Context where
  memory := ⟨{ bindings := ⟨[("x", some (.boolean true)), ("y", none)]⟩ }, []⟩
  functions := ⟨[("f", mirror), ("g", idle)]⟩

/-- The same variable, seen from a block, and the same functions, registered the other way round. -/
def nestedContext : Context where
  memory := ⟨{ parent := some 0 }, [{ bindings := ⟨[("x", some (.boolean true))]⟩ }]⟩
  functions := ⟨[("g", idle), ("f", mirror)]⟩

theorem sameFunctions_nested_plain (name : String) :
    nestedContext.functions.find? name = plainContext.functions.find? name := by
  by_cases hecho : name = "f"
  · subst hecho
    rfl
  · by_cases hidle : name = "g"
    · subst hidle
      rfl
    · simp [nestedContext, plainContext, NameTable.find?, List.lookup_cons,
        beq_eq_false_iff_ne.2 hecho, beq_eq_false_iff_ne.2 hidle]

theorem outcome_same_in_block :
    let negation : Expr := .call ⟨"not"⟩ [.simple ⟨"x"⟩]
    let statement : Statement := .assign ⟨"x"⟩ (.call ⟨"f"⟩ [negation])
    plainContext.Agree .sameFunctions (· ∈ statement.names) nestedContext ∧
      (execute 9 statement plainContext).1 = .done .completed ∧
      (execute 9 statement nestedContext).1 = (execute 9 statement plainContext).1 ∧
      (execute 9 statement plainContext).2.Agree .sameFunctions (· ∈ statement.names)
        (execute 9 statement nestedContext).2 ∧
      (evaluate 9 negation nestedContext).1 = (evaluate 9 negation plainContext).1 ∧
      (applyFunction (execute 9) mirror [.boolean false] nestedContext).1 =
        (applyFunction (execute 9) mirror [.boolean false] plainContext).1 := by
  intro negation statement
  obtain ⟨hstatement, hexpr, hcall⟩ := outcome_determined_by_names .sameFunctions
  have hvisible : ∀ name, name = "x" →
      nestedContext.memory.visible name = plainContext.memory.visible name := by
    rintro name rfl
    rfl
  have hnames : ∀ name ∈ statement.names, name = "x" := by decide +kernel
  have hreads : ∀ name ∈ negation.reads, name = "x" := by decide +kernel
  have hagree : plainContext.Agree .sameFunctions (· ∈ statement.names) nestedContext :=
    ⟨sameFunctions_nested_plain, rfl, fun name hname => hvisible name (hnames name hname)⟩
  have hagreeReads : plainContext.Agree .sameFunctions (· ∈ negation.reads) nestedContext :=
    ⟨sameFunctions_nested_plain, rfl, fun name hname => hvisible name (hreads name hname)⟩
  obtain ⟨houtcome, hafter⟩ := hstatement 9 statement _ _ hagree
  exact ⟨hagree, rfl, houtcome, hafter, (hexpr 9 negation _ _ hagreeReads).1,
    (hcall 9 mirror [.boolean false] plainContext nestedContext sameFunctions_nested_plain rfl).1⟩

end TinyScript
