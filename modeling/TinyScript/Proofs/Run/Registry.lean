import TinyScript.Proofs.Run.Effects

/-!
# Which names become functions

Names that no function has stay without one, unless they are declared where this gets past the guard
of declarations: in the body of a function, from which the variables outside are not visible
(`keepsFree`). Outside functions the names of visible variables are safe.
-/

namespace TinyScript

/-- The functions that are declared in the body of a function. -/
def FunctionDecl.inner (decl : FunctionDecl) : List String :=
  Statement.declaresAll decl.body ++ Statement.innerAll decl.body

/-- The functions declare only inner names, none of the other names is that of a function, and if
that is asked for these are visible variables. -/
structure Context.Without (inner names : String → Prop) (visible : Bool) (context : Context) :
    Prop where
  known : ∀ name decl, context.functions.find? name = some decl →
    ∀ declared ∈ decl.inner, inner declared
  free : ∀ name, names name → context.functions.contains name = false
  declared : visible = true → ∀ name, names name → context.memory.isDeclared name = true

variable {inner names : String → Prop} {visible : Bool}

theorem Context.Without.withMemory {context : Context} (h : context.Without inner names visible)
    {memory : Memory} {seen : Bool}
    (hmemory : seen = true → ∀ name, names name → memory.isDeclared name = true) :
    Context.Without inner names seen { context with memory } :=
  ⟨h.known, h.free, hmemory⟩

/-- Names that are visible stay so while a context changes. -/
theorem Context.Changes.declared {stored declared : List String} {before after : Context}
    (h : before.Changes stored declared after) (hbefore : before.Without inner names visible)
    (hvisible : visible = true) : ∀ name, names name → after.memory.isDeclared name = true :=
  fun name hname => h.memory.isDeclared (hbefore.declared hvisible name hname)

namespace Action

variable {α : Type}

/-- The action makes no function of any of the names. -/
def KeepsFree (inner names : String → Prop) (visible : Bool) (action : Action α) : Prop :=
  ∀ context : Context, context.Without inner names visible →
    (action context).2.Without inner names visible

theorem closed_keepsFree (inner names : String → Prop) (visible : Bool) :
    Closed fun _ action => action.KeepsFree inner names visible := by
  refine closed_of_trans (fun before after =>
    before.Without inner names visible → after.Without inner names visible) ?_ ?_
  · exact fun _ h => h
  · exact fun hfirst hsecond h => hsecond (hfirst h)

/-- An action that registers nothing makes no function of any name. -/
theorem keepsFree_of_functions {stored declared : List String} {action : Action α}
    (hchanges : action.Changes stored declared)
    (hfunctions : ∀ context, (action context).2.functions = context.functions) :
    action.KeepsFree inner names visible := by
  intro context h
  refine ⟨?_, ?_, (hchanges context).declared h⟩
  · rw [hfunctions]
    exact h.known
  · rw [hfunctions]
    exact h.free

/-- What is visible around a scope may or may not be visible in it. -/
theorem KeepsFree.inScope {enter : Memory → Memory} {action : Action α} {seen : Bool}
    {stored declared : List String} (h : action.KeepsFree inner names seen)
    (henter : seen = true → visible = true ∧
      ∀ (memory : Memory) (name : String),
        (enter memory).isDeclared name = memory.isDeclared name)
    (hchanges : (inScope enter action).Changes stored declared) :
    (inScope enter action).KeepsFree inner names visible := by
  intro context hcontext
  have hinside : Context.Without inner names seen { context with memory := enter context.memory } :=
    hcontext.withMemory fun hseen name hname => by
      rw [(henter hseen).2]
      exact hcontext.declared (henter hseen).1 name hname
  have hafter := h _ hinside
  exact ⟨hafter.known, hafter.free, (hchanges context).declared hcontext⟩

theorem keepsFree_lookup (other : String) : (lookup other).KeepsFree inner names visible := by
  have hchanges : (lookup other).Changes [] [] := changes_lookup other
  exact keepsFree_of_functions hchanges (functions_lookup other)

theorem keepsFree_write (piece : String) : (write piece).KeepsFree inner names visible := by
  have hchanges : (write piece).Changes [] [] := changes_write piece
  exact keepsFree_of_functions hchanges (functions_write piece)

theorem keepsFree_declare (other : String) : (declare other).KeepsFree inner names visible := by
  intro context h
  apply h.withMemory
  intro hvisible name hname
  rw [Memory.isDeclared_declare, h.declared hvisible name hname, Bool.or_true]

theorem keepsFree_store (other : String) (value : Value) :
    (store other value).KeepsFree inner names visible := by
  intro context h
  unfold store
  split
  · next memory hstore =>
      apply h.withMemory
      intro hvisible name hname
      exact (Memory.isDeclared_of_updated (Memory.updated_store hstore) name).trans
        (h.declared hvisible name hname)
  · exact h

end Action

/-! ## Programs -/

section

variable {evaluate : Expr → Action Value} {execute : Statement → Action Flow}

theorem keepsFree_executeBlock {body : Block} {stored declared : List String}
    (hexecute : ∀ statement ∈ body, (execute statement).KeepsFree inner names visible)
    (hchanges : (executeAll execute body).Changes stored declared) :
    (executeBlock execute body).KeepsFree inner names visible := by
  apply ((Action.closed_keepsFree inner names visible).executeAll hexecute).inScope
  · intro hvisible
    refine ⟨hvisible, fun memory name => ?_⟩
    rw [← Memory.isSome_binding?, Memory.binding?_beginNested, Memory.isSome_binding?]
  · exact hchanges.inScope

theorem keepsFree_applyFunction {decl : FunctionDecl} {stored declared : List String}
    (hbody : (executeBlock execute decl.body).KeepsFree inner names false)
    (hchanges : (executeBlock execute decl.body).Changes stored declared)
    (arguments : List Value) :
    (applyFunction execute decl arguments).KeepsFree inner names visible := by
  have hrun : (runBody execute decl arguments).KeepsFree inner names false :=
    (Action.closed_keepsFree inner names false).runBody Action.keepsFree_declare
      Action.keepsFree_store hbody arguments
  have hcall := changes_applyFunction hchanges arguments
  rw [applyFunction_eq] at hcall ⊢
  apply hrun.inScope _ hcall
  intro hseen
  cases hseen

theorem keepsFree_callFunction {other : String} {arguments : List Expr}
    (hevaluate : ∀ argument ∈ arguments, (evaluate argument).KeepsFree inner names visible)
    (hbody : ∀ decl : FunctionDecl, (∀ declared ∈ decl.inner, inner declared) →
      ∀ values, (applyFunction execute decl values).KeepsFree inner names visible) :
    (callFunction evaluate execute other arguments).KeepsFree inner names visible := by
  have hclosed := Action.closed_keepsFree inner names visible
  intro context h
  rw [callFunction_eq]
  rcases hfind : context.functions.find? other with _ | decl
  · exact h
  · rw [callFound]
    split
    · exact hclosed.bind (hclosed.evaluateAll hevaluate) (hbody decl (h.known other decl hfind))
        context h
    · exact h

theorem keepsFree_assign {target : String} {expr : Expr}
    (hevaluate : (evaluate expr).KeepsFree inner names visible) :
    (assign evaluate target expr).KeepsFree inner names visible := by
  have hstore : (storeValue evaluate target expr).KeepsFree inner names visible :=
    (Action.closed_keepsFree inner names visible).storeValue hevaluate
      (Action.keepsFree_store target)
  intro context h
  rw [assign_eq]
  split
  · exact h
  · apply hstore
    unfold Context.ready
    split
    · exact h
    · exact Action.keepsFree_declare target context h

end

/-- A declaration makes a function of no name but its own, and not of that if it is visible. -/
theorem keepsFree_declareFunction {decl : FunctionDecl}
    (hinner : ∀ declared ∈ decl.inner, inner declared)
    (hname : visible = true ∨ ¬ names decl.name.spelling) :
    (declareFunction decl).KeepsFree inner names visible := by
  intro context h
  have hchanges := changes_declareFunction decl context
  rcases declareFunction_cases decl context with ⟨error, hrun⟩ |
    ⟨hdeclared, -, memory, -, hrun⟩
  · rw [hrun]
    exact h
  · have hne : ∀ name, names name → name ≠ decl.name.spelling := by
      rintro name hfresh rfl
      rcases hname with hvisible | hnone
      · exact Bool.false_ne_true (hdeclared.symm.trans (h.declared hvisible _ hfresh))
      · exact hnone hfresh
    rw [hrun] at hchanges ⊢
    refine ⟨?_, ?_, hchanges.declared h⟩
    · intro other found hfound
      rw [Context.withFunction, FunctionTable.register, NameTable.find?_insert] at hfound
      split at hfound
      · cases hfound
        exact hinner
      · exact h.known other found hfound
    · intro name hfresh
      rw [Context.withFunction, FunctionTable.register, NameTable.contains_insert,
        h.free name hfresh]
      simp [hne name hfresh]

theorem keepsFree_block {bound : Nat} {body : Block}
    (hexecute : ∀ statement, (∀ declared ∈ statement.inner, inner declared) →
      (visible = true ∨ ∀ name ∈ statement.declares, ¬ names name) →
      (execute bound statement).KeepsFree inner names visible)
    (hinner : ∀ declared ∈ Statement.innerAll body, inner declared)
    (hnames : visible = true ∨ ∀ name ∈ Statement.declaresAll body, ¬ names name) :
    (executeBlock (execute bound) body).KeepsFree inner names visible := by
  refine keepsFree_executeBlock ?_
    (changes_executeAll fun statement _ => (changes bound).2 statement)
  intro statement hstatement
  apply hexecute statement
  · intro declared hdeclared
    exact hinner declared (Statement.inner_subset_all hstatement hdeclared)
  · exact hnames.imp_right fun hnone name hname =>
      hnone name (Statement.declares_subset_all hstatement hname)

/-- The body of a function declares none but inner names, so a call makes no function of another. -/
theorem keepsFree_call {bound : Nat} (hnames : ∀ name, inner name → ¬ names name)
    (hexecute : ∀ statement, (∀ declared ∈ statement.inner, inner declared) →
      (false = true ∨ ∀ name ∈ statement.declares, ¬ names name) →
      (execute bound statement).KeepsFree inner names false)
    (decl : FunctionDecl) (hinner : ∀ declared ∈ decl.inner, inner declared)
    (values : List Value) :
    (applyFunction (execute bound) decl values).KeepsFree inner names visible := by
  refine keepsFree_applyFunction (keepsFree_block hexecute ?_ (.inr ?_))
    (changes_executeBlock fun statement _ => (changes bound).2 statement) values
  · intro declared hdeclared
    exact hinner declared (List.mem_append_right _ hdeclared)
  · intro name hdeclares
    exact hnames name (hinner name (List.mem_append_left _ hdeclares))

/-- Names that are not declared in the bodies of functions become no functions while an expression
is evaluated, and neither while a statement is executed that does not declare them or sees variables
of these names. -/
theorem keepsFree (hnames : ∀ name, inner name → ¬ names name) (bound : Nat) :
    (∀ (visible : Bool) (expr : Expr),
      (evaluate bound expr).KeepsFree inner names visible) ∧
    ∀ (visible : Bool) (statement : Statement),
      (∀ declared ∈ statement.inner, inner declared) →
      (visible = true ∨ ∀ name ∈ statement.declares, ¬ names name) →
      (execute bound statement).KeepsFree inner names visible := by
  induction bound with
  | zero =>
      exact ⟨fun visible _ => (Action.closed_keepsFree inner names visible).unfinished,
        fun visible _ _ _ => (Action.closed_keepsFree inner names visible).unfinished⟩
  | succ bound ih =>
      obtain ⟨ihevaluate, ihexecute⟩ := ih
      constructor
      · intro visible expr
        apply (Action.closed_keepsFree inner names visible).evaluate_succ
        · intro token _ _
          exact Action.keepsFree_lookup token.spelling
        · intro part _
          exact ihevaluate visible part
        · intro operator arguments _ _
          apply keepsFree_callFunction fun argument _ => ihevaluate visible argument
          exact keepsFree_call hnames (ihexecute false)
      · intro visible statement hinner hdeclares
        apply (Action.closed_keepsFree inner names visible).execute_succ Action.keepsFree_write
        · intro expr _
          exact ihevaluate visible expr
        · intro body hbody
          apply keepsFree_block (ihexecute visible)
          · exact fun name hname => hinner name (Statement.inner_of_block hbody hname)
          · exact hdeclares.imp_right fun hnone name hname =>
              hnone name (Statement.declares_of_block hbody hname)
        · rintro target value rfl
          exact keepsFree_assign (ihevaluate visible value)
        · rintro decl rfl
          apply keepsFree_declareFunction hinner
          exact hdeclares.imp_right fun hnone => hnone _ (List.mem_singleton.2 rfl)

/-- The same for one name. -/
theorem free_of_not_inner {context : Context} {bound : Nat} {statement : Statement} {name : String}
    (hcontext : context.Without inner (fun _ => False) false)
    (hinner : ∀ declared ∈ statement.inner, inner declared) (hname : ¬ inner name)
    (hfree : context.functions.contains name = false)
    (hguard : context.memory.isDeclared name = true ∨ statement.declares = []) :
    (execute bound statement context).2.functions.contains name = false := by
  have hnames : ∀ other, inner other → other ≠ name := by
    rintro other hother rfl
    exact hname hother
  have hfreeName : ∀ other, other = name → context.functions.contains other = false := by
    rintro other rfl
    exact hfree
  rcases hguard with hdeclared | hnone
  · have hwithout : context.Without inner (· = name) true :=
      ⟨hcontext.known, hfreeName, fun _ other hother => hother ▸ hdeclared⟩
    exact ((keepsFree hnames bound).2 true statement hinner (.inl rfl) _ hwithout).free name rfl
  · have hwithout : context.Without inner (· = name) false :=
      ⟨hcontext.known, hfreeName, fun hvisible => (Bool.false_ne_true hvisible).elim⟩
    have hdeclares : ∀ other ∈ statement.declares, other ≠ name := by simp [hnone]
    exact ((keepsFree hnames bound).2 false statement hinner (.inr hdeclares) _ hwithout).free
      name rfl

end TinyScript
