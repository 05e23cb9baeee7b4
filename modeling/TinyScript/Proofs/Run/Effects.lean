import TinyScript.Proofs.Memory.Steps
import TinyScript.Proofs.Run.Closure

/-!
# What running changes

However far an expression or a statement gets, the memory behind it is reached by steps under the
names that the tree mentions, and nothing that was registered or printed is lost (`changes`). An
expression takes no step at all: what it does to variables happens in the frames of functions, which
are gone when it is done. A name that a function had before is never declared or assigned.
-/

namespace TinyScript

/-! ## Changes of a context -/

/-- Functions stay as they are registered, and the sink has received what it had before and perhaps
more. -/
structure Context.Extends (before after : Context) : Prop where
  functions : ∀ name decl, before.functions.find? name = some decl →
    after.functions.find? name = some decl
  accepts : after.sink.accepts = before.sink.accepts
  printed : before.sink.written <:+ after.sink.written

theorem Context.Extends.refl (context : Context) : context.Extends context where
  functions _ _ h := h
  accepts := rfl
  printed := List.suffix_rfl

theorem Context.Extends.trans {first second third : Context} (h : first.Extends second)
    (hnext : second.Extends third) : first.Extends third where
  functions name decl hdecl := hnext.functions name decl (h.functions name decl hdecl)
  accepts := hnext.accepts.trans h.accepts
  printed := h.printed.trans hnext.printed

theorem Context.Extends.contains {before after : Context} (h : before.Extends after)
    {name : String} (hname : before.functions.contains name = true) :
    after.functions.contains name = true := by
  obtain ⟨decl, hdecl⟩ := Option.isSome_iff_exists.1 hname
  exact Option.isSome_iff_exists.2 ⟨decl, h.functions name decl hdecl⟩

theorem Context.extends_memory (context : Context) (memory : Memory) :
    context.Extends { context with memory } where
  functions _ _ h := h
  accepts := rfl
  printed := List.suffix_rfl

/-- The names among the given ones that belong to no function. -/
def Context.Free (context : Context) (names : List String) (name : String) : Prop :=
  name ∈ names ∧ context.functions.contains name = false

/-- Besides what it extends, the context has changed by steps under the given names, of which none
belonged to a function. -/
structure Context.Changes (stored declared : List String) (before after : Context) : Prop
    extends Context.Extends before after where
  memory : Memory.Steps (before.Free stored) (before.Free declared) before.memory after.memory

section

variable {stored declared others fresh : List String} {before after third : Context}

theorem Context.Changes.of_memory_eq (h : before.Extends after)
    (hmemory : after.memory = before.memory) : before.Changes stored declared after where
  toExtends := h
  memory := hmemory ▸ .refl

theorem Context.Changes.refl (context : Context) : context.Changes stored declared context :=
  .of_memory_eq (.refl context) rfl

theorem Context.Extends.free (h : before.Extends after) {names : List String} {name : String}
    (hname : after.Free names name) : before.Free names name := by
  refine ⟨hname.1, ?_⟩
  rw [← Bool.not_eq_true]
  intro hbefore
  exact Bool.false_ne_true (hname.2.symm.trans (h.contains hbefore))

theorem Context.Changes.trans (h : before.Changes stored declared after)
    (hnext : after.Changes stored declared third) : before.Changes stored declared third where
  toExtends := h.toExtends.trans hnext.toExtends
  memory := h.memory.trans <| hnext.memory.mono (fun _ => h.toExtends.free)
    fun _ => h.toExtends.free

theorem Context.Changes.mono (h : before.Changes stored declared after)
    (hstored : stored ⊆ others) (hdeclared : declared ⊆ fresh) :
    before.Changes others fresh after where
  toExtends := h.toExtends
  memory := h.memory.mono (fun _ hname => ⟨hstored hname.1, hname.2⟩)
    fun _ hname => ⟨hdeclared hname.1, hname.2⟩

theorem Context.Changes.memory_eq (h : before.Changes [] [] after) :
    after.memory = before.memory := by
  have hnone : ∀ name, before.Free [] name → False := fun _ hname => List.not_mem_nil hname.1
  exact Memory.Stores.eq (h.memory.mono hnone hnone)

end

/-! ## Changes by an action -/

namespace Action

variable {α : Type} {stored declared others fresh : List String} {below : List Frame}

/-- What the action changes, however it ends. -/
def Changes (stored declared : List String) (action : Action α) : Prop :=
  ∀ context : Context, context.Changes stored declared (action context).2

/-- In the frame of a function the action stays there. -/
def StaysOver (below : List Frame) (action : Action α) : Prop :=
  ∀ context : Context, context.memory.RootOver below →
    context.Extends (action context).2 ∧ (action context).2.memory.RootOver below

theorem Changes.mono {action : Action α} (h : action.Changes stored declared)
    (hstored : stored ⊆ others) (hdeclared : declared ⊆ fresh) : action.Changes others fresh :=
  fun context => (h context).mono hstored hdeclared

theorem closed_changes (stored declared : List String) :
    Closed fun _ action => action.Changes stored declared :=
  closed_of_trans (Context.Changes stored declared) .refl .trans

theorem closed_staysOver (below : List Frame) :
    Closed fun _ action => action.StaysOver below := by
  refine closed_of_trans (fun before after => before.memory.RootOver below →
    before.Extends after ∧ after.memory.RootOver below) ?_ ?_
  · exact fun context hroot => ⟨.refl context, hroot⟩
  · intro first second third hfirst hsecond hroot
    obtain ⟨hextends, hmiddle⟩ := hfirst hroot
    obtain ⟨hrest, hlast⟩ := hsecond hmiddle
    exact ⟨hextends.trans hrest, hlast⟩

theorem Changes.staysOver {action : Action α} (h : action.Changes stored declared) :
    action.StaysOver below :=
  fun context hroot => ⟨(h context).toExtends, hroot.steps (h context).memory⟩

theorem changes_lookup (name : String) : (lookup name).Changes stored declared := by
  intro context
  change context.Changes stored declared (ofExcept (context.memory.lookup name) context).2
  cases context.memory.lookup name with
  | ok value => exact .refl context
  | error error => exact .refl context

theorem changes_write (piece : String) : (write piece).Changes stored declared := by
  intro context
  unfold write Sink.write?
  split
  · next sink hsink =>
      split at hsink
      · cases hsink
        exact .of_memory_eq ⟨fun _ _ h => h, rfl, List.suffix_cons _ _⟩ rfl
      · cases hsink
  · exact .refl context

/-- A scope that is left declares nothing. -/
theorem Changes.inScope {action : Action α} (h : action.Changes stored declared) :
    (inScope Memory.beginNested action).Changes stored [] := by
  intro context
  have hinner := h { context with memory := context.memory.beginNested }
  refine ⟨⟨hinner.functions, hinner.accepts, hinner.printed⟩, ?_⟩
  have hsteps := hinner.memory.nestedIn.stores
  exact hsteps.mono (fun _ hname => hname) fun _ hname => hname.elim

/-- The frame of a function leaves no trace in memory. -/
theorem StaysOver.changes_inScope {action : Action α} (h : ∀ below, action.StaysOver below) :
    (inScope Memory.beginFunction action).Changes stored declared := by
  intro context
  obtain ⟨hextends, hroot⟩ := h context.memory.frames
    { context with memory := context.memory.beginFunction }
    (Memory.rootOver_beginFunction context.memory)
  refine .of_memory_eq ⟨hextends.functions, hextends.accepts, hextends.printed⟩ ?_
  exact hroot.endScope_eq

theorem staysOver_declare (name : String) : (declare name).StaysOver below :=
  fun context hroot => ⟨context.extends_memory _, hroot.declare name⟩

theorem staysOver_store (name : String) (value : Value) :
    (store name value).StaysOver below := by
  intro context hroot
  unfold store
  split
  · next memory hstore => exact ⟨context.extends_memory memory, hroot.store hstore⟩
  · exact ⟨.refl context, hroot⟩

end Action

/-! ## Changes by the parts of a program -/

section

variable {stored declared : List String} {evaluate : Expr → Action Value}
  {execute : Statement → Action Flow}

theorem changes_executeAll {body : Block}
    (hexecute : ∀ statement ∈ body,
      (execute statement).Changes statement.writes statement.introduces.toList) :
    (executeAll execute body).Changes (Statement.writesAll body) (Statement.writesAll body) := by
  apply (Action.closed_changes _ _).executeAll
  intro statement hstatement
  have hwrites := Statement.writes_subset_all hstatement
  apply (hexecute statement hstatement).mono hwrites
  intro name hname
  rw [Option.mem_toList] at hname
  exact hwrites (Statement.mem_writes_of_introduces hname)

theorem changes_executeBlock {body : Block}
    (hexecute : ∀ statement ∈ body,
      (execute statement).Changes statement.writes statement.introduces.toList) :
    (executeBlock execute body).Changes (Statement.writesAll body) [] :=
  (changes_executeAll hexecute).inScope

theorem staysOver_runBody {decl : FunctionDecl} {below : List Frame}
    (hbody : (executeBlock execute decl.body).Changes stored declared) (arguments : List Value) :
    (runBody execute decl arguments).StaysOver below :=
  (Action.closed_staysOver below).runBody Action.staysOver_declare Action.staysOver_store
    hbody.staysOver arguments

theorem changes_applyFunction {decl : FunctionDecl}
    (hbody : (executeBlock execute decl.body).Changes stored declared) (arguments : List Value) :
    (applyFunction execute decl arguments).Changes [] [] := by
  rw [applyFunction_eq]
  exact Action.StaysOver.changes_inScope fun _ => staysOver_runBody hbody arguments

theorem changes_callFunction {name : String} {arguments : List Expr}
    (hevaluate : ∀ argument ∈ arguments, (evaluate argument).Changes [] [])
    (hexecute : ∀ statement,
      (execute statement).Changes statement.writes statement.introduces.toList) :
    (callFunction evaluate execute name arguments).Changes [] [] := by
  have hclosed := Action.closed_changes [] []
  intro context
  rw [callFunction_eq]
  cases context.functions.find? name with
  | none => exact .refl context
  | some decl =>
      rw [callFound]
      split
      · refine hclosed.bind (hclosed.evaluateAll hevaluate) (fun values => ?_) context
        exact changes_applyFunction (changes_executeBlock fun statement _ => hexecute statement)
          values
      · exact .refl context

end

/-! ## Assignments and declarations -/

theorem Context.extends_withFunction {context : Context} {decl : FunctionDecl}
    (hfree : context.functions.contains decl.name.spelling = false) (memory : Memory) :
    context.Extends (context.withFunction decl memory) where
  functions name other hother := by
    have hname : name ≠ decl.name.spelling := by
      rintro rfl
      simp [NameTable.contains, hother] at hfree
    simpa [withFunction, FunctionTable.register, hname] using hother
  accepts := rfl
  printed := List.suffix_rfl

section

variable {evaluate : Expr → Action Value} {name : String} {expr : Expr}

/-- What an assignment does behind the declaration of its target is at most one store. -/
theorem storeValue_changes (hevaluate : (evaluate expr).Changes [] []) (context : Context) :
    context.Extends (storeValue evaluate name expr context).2 ∧
      ((storeValue evaluate name expr context).2.memory = context.memory ∨
        ∃ value, context.memory.store name value =
          .ok (storeValue evaluate name expr context).2.memory) := by
  have hchanges := hevaluate context
  have hmemory := hchanges.memory_eq
  have hextends := hchanges.toExtends
  rw [storeValue_eq]
  rcases hrun : evaluate expr context with ⟨value | error | _, middle⟩
  · rw [hrun] at hextends hmemory
    dsimp only at hextends hmemory ⊢
    rcases hstore : middle.memory.store name value with error | memory
    · exact ⟨hextends, .inl hmemory⟩
    · rw [hmemory] at hstore
      exact ⟨hextends.trans (middle.extends_memory memory), .inr ⟨value, hstore⟩⟩
  · rw [hrun] at hextends hmemory
    exact ⟨hextends, .inl hmemory⟩
  · rw [hrun] at hextends hmemory
    exact ⟨hextends, .inl hmemory⟩

theorem Context.extends_ready (context : Context) (name : String) :
    context.Extends (context.ready name) := by
  unfold ready
  split
  · exact .refl context
  · exact context.extends_memory _

theorem Context.steps_ready {stored declared : String → Prop} (context : Context)
    (hname : declared name) :
    Memory.Steps stored declared context.memory (context.ready name).memory := by
  unfold ready
  split
  · exact .refl
  · next hnew => exact .single (.declare hname (by simpa using hnew))

theorem changes_assign (hevaluate : (evaluate expr).Changes [] []) :
    (assign evaluate name expr).Changes [name] [name] := by
  intro context
  rw [assign_eq]
  split
  · exact .refl context
  · next hfree =>
      have hname : context.Free [name] name := ⟨by simp, by simpa using hfree⟩
      obtain ⟨hextends, hmemory⟩ := storeValue_changes hevaluate (context.ready name)
      refine ⟨(context.extends_ready name).trans hextends, ?_⟩
      have hready : Memory.Steps (context.Free [name]) (context.Free [name]) context.memory
          (context.ready name).memory := context.steps_ready hname
      -- The registry may have got the name in the meantime, but it did not have it at the start.
      rcases hmemory with hsame | ⟨value, hstore⟩
      · rwa [hsame]
      · exact hready.tail (.store hname hstore)

end

theorem changes_declareFunction (decl : FunctionDecl) :
    (declareFunction decl).Changes [decl.name.spelling] [decl.name.spelling] := by
  intro context
  rcases declareFunction_cases decl context with ⟨error, hrun⟩ |
    ⟨hdeclared, hfree, memory, hmemory, hrun⟩
  · rw [hrun]
    exact .refl context
  · have hname : context.Free [decl.name.spelling] decl.name.spelling := ⟨by simp, hfree⟩
    have hdeclare : Memory.Steps (context.Free [decl.name.spelling])
        (context.Free [decl.name.spelling]) context.memory
        (context.memory.declare decl.name.spelling) := .single (.declare hname hdeclared)
    rw [hrun]
    exact ⟨Context.extends_withFunction hfree memory, hdeclare.tail (.store hname hmemory)⟩

/-! ## Changes by a whole program -/

theorem changes (bound : Nat) :
    (∀ expr, (evaluate bound expr).Changes [] []) ∧
      ∀ statement, (execute bound statement).Changes statement.writes
        statement.introduces.toList := by
  induction bound with
  | zero =>
      exact ⟨fun expr => (Action.closed_changes [] []).unfinished,
        fun statement => (Action.closed_changes _ _).unfinished⟩
  | succ bound ih =>
      obtain ⟨ihevaluate, ihexecute⟩ := ih
      constructor
      · intro expr
        apply (Action.closed_changes [] []).evaluate_succ
        · intro token _ _
          exact Action.changes_lookup token.spelling
        · intro part _
          exact ihevaluate part
        · intro operator arguments _ _
          exact changes_callFunction (fun argument _ => ihevaluate argument) ihexecute
      · intro statement
        apply (Action.closed_changes _ _).execute_succ Action.changes_write
        · intro expr _
          exact (ihevaluate expr).mono (List.nil_subset _) (List.nil_subset _)
        · intro body hbody
          apply (changes_executeBlock fun statement _ => ihexecute statement).mono
          · exact Statement.writes_of_block hbody
          · exact List.nil_subset _
        · rintro target value rfl
          exact changes_assign (ihevaluate value)
        · rintro decl rfl
          exact changes_declareFunction decl

end TinyScript
