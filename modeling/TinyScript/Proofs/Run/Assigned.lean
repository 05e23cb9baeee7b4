import TinyScript.Proofs.Memory.Chain
import TinyScript.Proofs.Run.Effects

/-!
# Variables without a value

An assignment declares its target before it computes the value, so for a while there is a variable
without one. Meanwhile the memory does not change, whatever is called. So only an assignment that
fails leaves such a variable behind, and not if a block or a call is left on the way out
(`bindings_stay_assigned`).
-/

namespace TinyScript

/-- Each name in the frame has a value. -/
def Frame.Assigned (frame : Frame) : Prop :=
  ∀ name, frame.bindings.find? name ≠ some none

/-- Each name in each frame has a value, also where it is not visible. -/
def Memory.Assigned (memory : Memory) : Prop :=
  ∀ frame ∈ memory.frames, frame.Assigned

theorem Frame.Updated.assigned {before after : Frame} (h : before.Updated after)
    (hassigned : before.Assigned) : after.Assigned := by
  intro name hnone
  have hcontains : before.bindings.contains name = true := by
    rw [← h.declares, NameTable.contains, hnone]
    rfl
  obtain ⟨binding, hbinding⟩ := Option.isSome_iff_exists.1 hcontains
  cases binding with
  | none => exact hassigned name hbinding
  | some value =>
      obtain ⟨other, hother⟩ := h.keeps name value hbinding
      rw [hnone] at hother
      cases hother

/-- A name is not without a value if it gets one behind its declaration. -/
theorem Frame.Assigned.declare_assign {frame : Frame} (h : frame.Assigned) (name : String)
    (value : Value) : ((frame.declare name).assign name value).Assigned := by
  intro other
  rw [Frame.assign, NameTable.find?_insert]
  split
  · simp
  · next hother =>
      rw [Frame.declare, NameTable.find?_insert, if_neg hother]
      exact h other

namespace Memory

variable {before after : Memory} {name : String} {value : Value}

theorem Assigned.updated (h : before.Assigned)
    (hframes : List.Forall₂ Frame.Updated before.frames after.frames) : after.Assigned := by
  unfold Assigned at h ⊢
  generalize before.frames = first, after.frames = last at *
  induction hframes with
  | nil => exact h
  | cons hframe _ ih =>
      obtain ⟨hfirst, hrest⟩ := List.forall_mem_cons.1 h
      exact List.forall_mem_cons.2 ⟨hframe.assigned hfirst, ih hrest⟩

theorem Assigned.store (h : before.Assigned) (hstore : before.store name value = .ok after) :
    after.Assigned :=
  h.updated (updated_store hstore)

theorem Assigned.declare_store (h : before.Assigned)
    (hstore : (before.declare name).store name value = .ok after) : after.Assigned := by
  obtain ⟨htop, hbelow⟩ := List.forall_mem_cons.1 h
  have hcontains : (before.declare name).top.bindings.contains name = true := by simp [declare]
  rw [store_top hcontains hstore]
  exact List.forall_mem_cons.2 ⟨htop.declare_assign name value, hbelow⟩

/-- A declaration under a name that is not visible hides no binding. -/
theorem bindingAt_of_declare (hnew : before.isDeclared name = false) {other : String}
    {index : Nat} (h : bindingAt other index before.frames = some (some value)) :
    bindingAt other index (before.declare name).frames = some (some value) := by
  rw [bindingAt_declare, if_neg, h]
  rintro ⟨rfl, rfl⟩
  have hcontains := contains_top hnew
  rw [frames, bindingAt, if_pos rfl] at h
  rw [NameTable.contains, h] at hcontains
  cases hcontains

end Memory

/-- Where nothing is declared, nothing comes to be without a value. -/
theorem Context.Changes.assigned {stored : List String} {before after : Context}
    (h : before.Changes stored [] after) (hassigned : before.memory.Assigned) :
    after.memory.Assigned := by
  have hstores : Memory.Stores (before.Free stored) before.memory after.memory :=
    h.memory.mono (fun _ hname => hname) fun _ hname => List.not_mem_nil hname.1
  exact hassigned.updated hstores.updated

/-! ## Assignments -/

section

variable {evaluate : Expr → Action Value} {name : String} {expr : Expr} {context middle : Context}
  {value : Value}

theorem Context.ready_cases (context : Context) (name : String) :
    (context.ready name).memory = context.memory ∨
      context.memory.isDeclared name = false ∧
        (context.ready name).memory = context.memory.declare name := by
  unfold ready
  split
  · exact .inl rfl
  · next hnew => exact .inr ⟨by simpa using hnew, rfl⟩

/-- The target is declared when the value is there, so that the store succeeds. -/
theorem assign_of_evaluated (hevaluate : (evaluate expr).Changes [] [])
    (hfree : context.functions.contains name = false)
    (hrun : evaluate expr (context.ready name) = (.done value, middle)) :
    ∃ memory, (context.ready name).memory.store name value = .ok memory ∧
      middle.memory.store name value = .ok memory ∧
      assign evaluate name expr context = (.done .completed, { middle with memory }) := by
  obtain ⟨memory, hmemory⟩ := Memory.exists_store (context.isDeclared_ready name) value
  have hsame := (hevaluate (context.ready name)).memory_eq
  rw [hrun] at hsame
  have hstore : middle.memory.store name value = .ok memory := hsame ▸ hmemory
  refine ⟨memory, hmemory, hstore, ?_⟩
  rw [assign_eq, hfree, storeValue_eq, hrun]
  dsimp only
  rw [hstore]
  rfl

/-- An assignment stores a value in its target, or it is not completed and has at most declared its
target. -/
theorem assign_cases (hevaluate : (evaluate expr).Changes [] []) {outcome : Outcome Flow}
    {after : Context} (h : assign evaluate name expr context = (outcome, after)) :
    (outcome = .done .completed ∧
        ∃ value, (context.ready name).memory.store name value = .ok after.memory) ∨
      (∀ flow, outcome ≠ .done flow) ∧ (after.memory = context.memory ∨
        context.memory.isDeclared name = false ∧
          after.memory = context.memory.declare name) := by
  have hsame := (hevaluate (context.ready name)).memory_eq
  rcases hfree : context.functions.contains name with _ | _
  · rcases hrun : evaluate expr (context.ready name) with ⟨value | error | _, middle⟩
    · obtain ⟨memory, hstore, -, hassign⟩ := assign_of_evaluated hevaluate hfree hrun
      cases h.symm.trans hassign
      exact .inl ⟨rfl, value, hstore⟩
    all_goals
      rw [hrun] at hsame
      rw [assign_eq, hfree, storeValue_eq, hrun] at h
      cases h
      refine .inr ⟨fun flow hflow => (nomatch hflow), ?_⟩
      rw [hsame]
      exact context.ready_cases name
  · rw [assign_eq, hfree] at h
    cases h
    exact .inr ⟨fun flow hflow => (nomatch hflow), .inl rfl⟩

theorem assigned_assign (hevaluate : (evaluate expr).Changes [] [])
    (hassigned : context.memory.Assigned) {flow : Flow} {after : Context}
    (h : assign evaluate name expr context = (.done flow, after)) : after.memory.Assigned := by
  rcases assign_cases hevaluate h with ⟨-, value, hstore⟩ | ⟨hnot, -⟩
  · rcases context.ready_cases name with hready | ⟨-, hready⟩
    · rw [hready] at hstore
      exact hassigned.store hstore
    · rw [hready] at hstore
      exact hassigned.declare_store hstore
  · exact absurd rfl (hnot flow)

end

/-! ## Declarations -/

theorem assigned_declareFunction (decl : FunctionDecl) {context : Context}
    (hassigned : context.memory.Assigned) :
    (declareFunction decl context).2.memory.Assigned := by
  rcases declareFunction_cases decl context with ⟨error, hrun⟩ | ⟨-, -, memory, hstore, hrun⟩
  · rw [hrun]
    exact hassigned
  · rw [hrun]
    exact hassigned.declare_store hstore

/-- Each parameter is declared when it gets its argument. -/
theorem bindParameters_done (parameters : List Token) (values : List Value) (context : Context) :
    (bindParameters parameters values context).1 = .done () := by
  induction parameters generalizing values context with
  | nil => rfl
  | cons parameter parameters ih =>
      cases values with
      | nil => rfl
      | cons value values =>
          obtain ⟨memory, hstore⟩ :=
            context.memory.exists_store_declare parameter.spelling value
          have hstored : Action.store parameter.spelling value
              { context with memory := context.memory.declare parameter.spelling } =
                (.done (), { context with memory }) := by
            rw [Action.store, hstore]
          have hrest : bindParameters (parameter :: parameters) (value :: values) context =
              bindParameters parameters values { context with memory } := by
            change (Action.store parameter.spelling value >>= fun _ =>
              bindParameters parameters values) _ = _
            rw [Action.bind_eq, hstored]
          rw [hrest]
          exact ih values _

/-! ## Statements -/

/-- If all names have a value, then so they have after any statement, however it ends, unless it is
an assignment that is not completed. An assignment that fails may leave its target declared in the
top frame if it was not visible, and changes nothing else in memory, no value in particular. The
stores themselves succeed: that of an assignment whenever there is a value, that of a declaration
that is not refused, and those of parameters always. -/
theorem bindings_stay_assigned :
    (∀ (bound : Nat) (statement : Statement) (context : Context), context.memory.Assigned →
      let run := execute bound statement context
      (∀ target value, statement = .assign target value → ∃ flow, run.1 = .done flow) →
        run.2.memory.Assigned) ∧
    (∀ (bound : Nat) (target : Token) (value : Expr) (context : Context) (error : Error),
      let run := execute bound (.assign target value) context
      run.1 = .failed error →
        (run.2.memory = context.memory ∨ context.memory.isDeclared target.spelling = false ∧
          run.2.memory = context.memory.declare target.spelling) ∧
        ∀ name index old, Memory.bindingAt name index context.memory.frames = some (some old) →
          Memory.bindingAt name index run.2.memory.frames = some (some old)) ∧
    (∀ (bound : Nat) (target : Token) (expr : Expr) (context middle : Context) (value : Value),
      context.functions.contains target.spelling = false →
      evaluate bound expr (context.ready target.spelling) = (.done value, middle) →
        ∃ memory, middle.memory.store target.spelling value = .ok memory ∧
          execute (bound + 1) (.assign target expr) context =
            (.done .completed, { middle with memory })) ∧
    (∀ (bound : Nat) (decl : FunctionDecl) (context : Context),
      context.memory.isDeclared decl.name.spelling = false →
      context.functions.contains decl.name.spelling = false →
        ∃ memory, (context.memory.declare decl.name.spelling).store decl.name.spelling
            Value.functionMarker = .ok memory ∧
          execute (bound + 1) decl.toStatement context =
            (.done .completed, context.withFunction decl memory)) ∧
    ∀ (parameters : List Token) (values : List Value) (context : Context),
      (bindParameters parameters values context).1 = .done () := by
  have hevaluate : ∀ bound expr, (evaluate bound expr).Changes [] [] :=
    fun bound expr => (changes bound).1 expr
  refine ⟨?_, ?_, ?_, ?_, bindParameters_done⟩
  · intro bound statement context hassigned run hdone
    have hchanges := (changes bound).2 statement context
    cases statement with
    | assign target value =>
        obtain ⟨flow, hflow⟩ := hdone target value rfl
        cases bound with
        | zero => cases hflow
        | succ bound =>
            exact assigned_assign (hevaluate bound value) hassigned (Prod.ext hflow rfl)
    | func name parameters body =>
        cases bound with
        | zero => exact hassigned
        | succ bound => exact assigned_declareFunction ⟨name, parameters, body⟩ hassigned
    | _ => exact hchanges.assigned hassigned
  · intro bound target value context error run hfailed
    cases bound with
    | zero => cases hfailed
    | succ bound =>
        have hrun : assign (evaluate bound) target.spelling value context =
            (.failed error, run.2) := Prod.ext hfailed rfl
        rcases assign_cases (hevaluate bound value) hrun with ⟨hdone, -⟩ | ⟨-, hmemory⟩
        · cases hdone
        refine ⟨hmemory, fun name index old hold => ?_⟩
        rcases hmemory with hsame | ⟨hnew, hdeclare⟩
        · rw [hsame]
          exact hold
        · rw [hdeclare]
          exact Memory.bindingAt_of_declare hnew hold
  · intro bound target expr context middle value hfree hrun
    obtain ⟨memory, -, hstore, hassign⟩ := assign_of_evaluated (hevaluate bound expr) hfree hrun
    exact ⟨memory, hstore, hassign⟩
  · intro bound decl context hdeclared hfree
    exact declareFunction_of_new hdeclared hfree

/-- One variable, outside all scopes. -/
def assignedContext : Context where
  memory := ⟨{ bindings := ⟨[("x", some (.boolean true))]⟩ }, []⟩

/-- The first assignment to a variable, from the variable itself. -/
def selfReference : Statement :=
  .assign ⟨"y"⟩ (.simple ⟨"y"⟩)

theorem selfReference_left_behind :
    let failed := execute 2 selfReference assignedContext
    let inBlock := execute 3 (.block [selfReference]) assignedContext
    assignedContext.memory.Assigned ∧
      inBlock.1 = .failed (.running (.unassignedVariable "y")) ∧ inBlock.2.memory.Assigned ∧
      failed.1 = .failed (.running (.unassignedVariable "y")) ∧
      failed.2.memory = assignedContext.memory.declare "y" ∧
      Memory.bindingAt "x" 0 failed.2.memory.frames = some (some (.boolean true)) := by
  intro failed inBlock
  obtain ⟨hassigned, hfailed, -⟩ := bindings_stay_assigned
  have hcontext : assignedContext.memory.Assigned := by
    intro frame hframe name
    rw [List.mem_singleton.1 hframe]
    by_cases hname : name = "x" <;>
      simp [assignedContext, NameTable.find?, List.lookup_cons, beq_eq_false_iff_ne.2, hname]
  have herror : failed.1 = .failed (.running (.unassignedVariable "y")) := rfl
  obtain ⟨-, hvalues⟩ := hfailed 2 ⟨"y"⟩ (.simple ⟨"y"⟩) assignedContext _ herror
  refine ⟨hcontext, rfl, hassigned 3 _ assignedContext hcontext fun _ _ h => (nomatch h), herror,
    rfl, hvalues "x" 0 _ rfl⟩

end TinyScript
