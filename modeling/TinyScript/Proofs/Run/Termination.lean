import Mathlib.Algebra.Order.BigOperators.Group.List
import Mathlib.Algebra.Order.Group.Nat
import TinyScript.Proofs.Program.Calls
import TinyScript.Proofs.Run.Bounds
import TinyScript.Proofs.Run.Failures

/-!
# Runs that end

Only loops without a count and recursion make a run go on forever. If functions can be ranked so
that each one calls only those of smaller rank, and there is no loop without a count, then a run
ends (`descending_runs_end`), although functions may be declared while it goes on. The bound that
it needs counts the size of what is run and, for each rank that calls can still go down, the size of
the largest function body.
-/

namespace TinyScript

/-- Under that name the function calls only functions of smaller rank, and it has no loop without a
count. -/
def FunctionDecl.Descends (rank : String → Nat) (name : String) (decl : FunctionDecl) : Prop :=
  (∀ callee ∈ Statement.callsAll decl.body, rank callee < rank name) ∧
    Statement.hasWhileAny decl.body = false

instance (rank : String → Nat) (name : String) (decl : FunctionDecl) :
    Decidable (decl.Descends rank name) :=
  inferInstanceAs (Decidable (_ ∧ _))

/-- The statement has no loop without a count, and all functions descend that are declared in the
context, in the statement or in the body of one of these. -/
structure Context.Descends (rank : String → Nat) (statement : Statement) (context : Context) :
    Prop where
  counted : statement.hasWhile = false
  declared : ∀ decl ∈ statement.functions, decl.Descends rank decl.name.spelling
  registered : ∀ name decl, context.functions.find? name = some decl → decl.Descends rank name
  inner : ∀ name decl, context.functions.find? name = some decl →
    ∀ inner ∈ Statement.functionsAll decl.body, inner.Descends rank inner.name.spelling

/-! ## Actions that end -/

/-- Where the functions are known the action ends, and they stay known. -/
def Action.Ends {α : Type} (discipline : Discipline) (action : Action α) : Prop :=
  ∀ context : Context, context.Keeps discipline →
    (action context).1 ≠ .unfinished ∧ (action context).2.Keeps discipline

variable {discipline : Discipline}

namespace Action

variable {α : Type}

theorem Obeys.ends {action : Action α} (h : action.Obeys discipline)
    (hends : ∀ context, (action context).1 ≠ .unfinished) : action.Ends discipline :=
  fun context hkeeps => ⟨hends context, (h context hkeeps).2⟩

theorem ends_fail (error : RuntimeError) :
    (failRunning error : Action α).Ends discipline :=
  fun _ hkeeps => ⟨nofun, hkeeps⟩

theorem sequential_ends (discipline : Discipline) :
    Sequential fun _ action => action.Ends discipline where
  pure _ _ hkeeps := ⟨nofun, hkeeps⟩
  failValue _ := ends_fail _
  bind {_ _ action next} haction hnext := by
    intro context hkeeps
    obtain ⟨hends, hmiddle⟩ := haction context hkeeps
    rw [bind_eq]
    rcases hrun : action context with ⟨result | error | _, middle⟩
    · rw [hrun] at hmiddle
      exact hnext result middle hmiddle
    · rw [hrun] at hmiddle
      exact ⟨nofun, hmiddle⟩
    · rw [hrun] at hends
      exact absurd rfl hends

theorem ends_lookup (name : String) : (lookup name).Ends discipline := by
  apply (obeys_lookup name).ends
  intro context
  unfold lookup
  cases context.memory.lookup name <;> exact nofun

theorem ends_declare (name : String) : (declare name).Ends discipline :=
  (obeys_declare name).ends fun _ => nofun

theorem ends_store (name : String) (value : Value) : (store name value).Ends discipline := by
  apply (obeys_store name value).ends
  intro context
  unfold store
  cases context.memory.store name value <;> exact nofun

theorem ends_write (piece : String) : (write piece).Ends discipline := by
  apply (obeys_write piece).ends
  intro context
  unfold write
  cases context.sink.write? piece <;> exact nofun

theorem Ends.inScope {action : Action α} (h : action.Ends discipline)
    (enter : Memory → Memory) : (inScope enter action).Ends discipline := by
  intro context hkeeps
  exact h { context with memory := enter context.memory } hkeeps

end Action

theorem ends_declareFunction {decl : FunctionDecl}
    (hknown : discipline.knows decl.name.spelling decl) :
    (declareFunction decl).Ends discipline := by
  apply (obeys_declareFunction hknown).ends
  intro context
  obtain ⟨error, hrefused⟩ | ⟨-, -, memory, -, hnew⟩ := declareFunction_cases decl context
  · rw [hrefused]
    exact nofun
  · rw [hnew]
    exact nofun

section

variable {evaluate : Expr → Action Value} {execute : Statement → Action Flow}

theorem ends_executeBlock {body : Block}
    (hexecute : ∀ statement ∈ body, (execute statement).Ends discipline) :
    (executeBlock execute body).Ends discipline :=
  ((Action.sequential_ends discipline).executeAll hexecute).inScope Memory.beginNested

theorem ends_callFunction {name : String} {arguments : List Expr}
    (hevaluate : ∀ argument ∈ arguments, (evaluate argument).Ends discipline)
    (hexecute : ∀ decl, discipline.knows name decl →
      ∀ statement ∈ decl.body, (execute statement).Ends discipline) :
    (callFunction evaluate execute name arguments).Ends discipline := by
  have hcomposes := Action.sequential_ends discipline
  intro context hkeeps
  rw [callFunction_eq]
  cases hfind : context.functions.find? name with
  | none => exact Action.ends_fail _ context hkeeps
  | some decl =>
      have hbody := ends_executeBlock (hexecute decl (hkeeps name decl hfind))
      rw [callFound]
      split
      · refine hcomposes.bind (hcomposes.evaluateAll hevaluate) (fun values => ?_) context hkeeps
        rw [applyFunction_eq]
        exact (hcomposes.runBody Action.ends_declare Action.ends_store hbody values).inScope
          Memory.beginFunction
      · exact Action.ends_fail _ context hkeeps

theorem ends_assign {name : String} {expr : Expr}
    (hevaluate : (evaluate expr).Ends discipline) :
    (assign evaluate name expr).Ends discipline := by
  have hstore := (Action.sequential_ends discipline).storeValue hevaluate (Action.ends_store name)
  intro context hkeeps
  rw [assign_eq]
  split
  · exact Action.ends_fail _ context hkeeps
  · apply hstore
    unfold Context.ready
    split
    · exact hkeeps
    · exact hkeeps

end

/-! ## Ranks -/

section

variable {rank : String → Nat} {height : Nat}

/-- The function descends under its own name, and its body is no larger than the height. -/
def FunctionDecl.DescendsWithin (rank : String → Nat) (height : Nat) (decl : FunctionDecl) : Prop :=
  decl.Descends rank decl.name.spelling ∧ sizeOf decl.body ≤ height

/-- Functions descend, with their bodies within a height. -/
def Discipline.descending (rank : String → Nat) (height : Nat) : Discipline where
  evaluates _ := True
  executes statement :=
    statement.hasWhile = false ∧ ∀ decl ∈ statement.functions, decl.DescendsWithin rank height
  knows name decl :=
    (decl.Descends rank name ∧ sizeOf decl.body ≤ height) ∧
      ∀ inner ∈ Statement.functionsAll decl.body, inner.DescendsWithin rank height
  expects _ := True
  evaluates_part _ _ := trivial
  evaluates_expr _ _ := trivial
  executes_member := by
    intro statement member body ⟨hcounted, hwithin⟩ hbody hmember
    refine ⟨Statement.hasWhile_of_mem (Statement.hasWhile_of_block hcounted hbody) hmember, ?_⟩
    intro decl hdecl
    exact hwithin decl (Statement.functions_of_block hbody
      (Statement.functions_of_mem hmember hdecl))
  executes_body := by
    intro name decl member ⟨⟨⟨_, hcounted⟩, _⟩, hwithin⟩ hmember
    refine ⟨Statement.hasWhile_of_mem hcounted hmember, ?_⟩
    intro inner hinner
    exact hwithin inner (Statement.functions_of_mem hmember hinner)
  knows_declared := by
    intro decl ⟨_, hwithin⟩
    refine ⟨hwithin decl (List.mem_cons_self ..), ?_⟩
    intro inner hinner
    exact hwithin inner (List.mem_cons_of_mem _ hinner)
  expects_other _ := trivial
  expects_sinkFull := trivial
  expects_caused _ _ := trivial
  expects_undeclared _ _ := trivial
  expects_arity _ _ _ _ := trivial

/-- A bound suffices that is the size of a tree and the height once for every rank that its calls
may have. -/
theorem ends_descending (bound ceiling : Nat) :
    (∀ expr : Expr, (∀ callee ∈ expr.calls, rank callee < ceiling) →
      sizeOf expr + ceiling * (height + 1) ≤ bound →
        (evaluate bound expr).Ends (.descending rank height)) ∧
    ∀ statement : Statement, (Discipline.descending rank height).executes statement →
      (∀ callee ∈ statement.calls, rank callee < ceiling) →
        sizeOf statement + ceiling * (height + 1) ≤ bound →
          (execute bound statement).Ends (.descending rank height) := by
  have hcomposes := Action.sequential_ends (.descending rank height)
  induction bound generalizing ceiling with
  | zero =>
      constructor
      · intro expr _ hbound
        cases expr <;> simp at hbound
      · intro statement _ _ hbound
        cases statement <;> simp at hbound
  | succ bound ih =>
      constructor
      · intro expr hcalls hbound
        have hparts : ∀ part ∈ expr.parts,
            (evaluate bound part).Ends (.descending rank height) := by
          intro part hpart
          have hsize := Expr.sizeOf_of_part hpart
          apply (ih ceiling).1 part
          · exact fun callee hcallee => hcalls callee (Expr.calls_of_part hpart hcallee)
          · omega
        apply hcomposes.evaluate_succ
        · exact fun token _ _ => Action.ends_lookup token.spelling
        · exact hparts
        · rintro operator arguments rfl hkind
          apply ends_callFunction hparts
          intro decl hknown member hmember
          -- The ceiling comes down to the rank of the function, which leaves room for its body.
          have hoperator := hcalls operator.spelling (Expr.mem_calls hkind arguments)
          have hroom := Nat.mul_le_mul_right (height + 1) hoperator
          rw [Nat.succ_mul] at hroom
          have hsize := List.sizeOf_lt_of_mem hmember
          have hheight := hknown.1.2
          apply (ih (rank operator.spelling)).2 member (Discipline.executes_body _ hknown hmember)
          · exact fun callee hcallee =>
              hknown.1.1.1 callee (Statement.calls_of_mem hmember hcallee)
          · omega
        · exact fun error _ => Action.ends_fail error
      · intro statement hexecutes hcalls hbound
        have hexprs : ∀ expr ∈ statement.exprs,
            (evaluate bound expr).Ends (.descending rank height) := by
          intro expr hexpr
          have hsize := Statement.sizeOf_of_expr hexpr
          apply (ih ceiling).1 expr
          · exact fun callee hcallee => hcalls callee (Statement.calls_of_expr hexpr hcallee)
          · omega
        apply hcomposes.execute_succ
        · exact hcomposes.printLine Action.ends_write
        · exact hexprs
        · intro body hbody
          apply ends_executeBlock
          intro member hmember
          have hsize := List.sizeOf_lt_of_mem hmember
          have hblock := Statement.sizeOf_of_block hbody
          apply (ih ceiling).2 member (Discipline.executes_member _ hexecutes hbody hmember)
          · exact fun callee hcallee => hcalls callee
              (Statement.calls_of_block hbody (Statement.calls_of_mem hmember hcallee))
          · omega
        · rintro target value rfl
          exact ends_assign (hexprs value (List.mem_singleton.2 rfl))
        · rintro decl rfl
          exact ends_declareFunction (Discipline.knows_declared _ hexecutes)
        · rintro condition body rfl
          exact nomatch hexecutes.1

end

/-! ## Enough room -/

private theorem exists_bound {Item : Type} (size : Item → Nat) (items : List Item) :
    ∃ bound, ∀ item ∈ items, size item ≤ bound :=
  ⟨(items.map size).sum, fun _ hitem => List.le_sum_of_mem (List.mem_map_of_mem hitem)⟩

/-- What descends has finitely many functions, so it descends within some height. -/
theorem Context.Descends.exists_height {rank : String → Nat} {statement : Statement}
    {context : Context} (h : context.Descends rank statement) :
    ∃ height, (Discipline.descending rank height).executes statement ∧
      context.Keeps (.descending rank height) := by
  let functions := statement.functions ++ context.functions.entries.flatMap fun entry =>
    entry.2 :: Statement.functionsAll entry.2.body
  obtain ⟨height, hheight⟩ := exists_bound (fun decl => sizeOf decl.body) functions
  refine ⟨height, ⟨h.counted, fun decl hdecl => ⟨h.declared decl hdecl, ?_⟩⟩, ?_⟩
  · exact hheight decl (List.mem_append_left _ hdecl)
  · intro name decl hfind
    have hregistered : ∀ found ∈ decl :: Statement.functionsAll decl.body, found ∈ functions := by
      intro found hfound
      apply List.mem_append_right
      exact List.mem_flatMap.2 ⟨(name, decl), NameTable.mem_of_find? hfind, hfound⟩
    have hown := hheight decl (hregistered decl (List.mem_cons_self ..))
    refine ⟨⟨h.registered name decl hfind, hown⟩, fun inner hinner => ?_⟩
    have hinside := hheight inner (hregistered inner (List.mem_cons_of_mem _ hinner))
    exact ⟨h.inner name decl hfind inner hinner, hinside⟩

/-- If functions can be ranked so that each one in reach calls only those of smaller rank, and there
is no loop without a count, then the statement ends with a flow or an error: the same one in the
same context, for all bounds that are large enough. -/
theorem descending_runs_end {rank : String → Nat} {statement : Statement} {context : Context}
    (h : context.Descends rank statement) :
    ∃ bound outcome after, outcome ≠ .unfinished ∧
      ∀ more, bound ≤ more → execute more statement context = (outcome, after) := by
  obtain ⟨height, hexecutes, hkeeps⟩ := h.exists_height
  obtain ⟨ceiling, hceiling⟩ := exists_bound rank statement.calls
  let bound := sizeOf statement + (ceiling + 1) * (height + 1)
  have hcalls : ∀ callee ∈ statement.calls, rank callee < ceiling + 1 :=
    fun callee hcallee => Nat.lt_succ_of_le (hceiling callee hcallee)
  have hends := (ends_descending bound (ceiling + 1)).2 statement hexecutes hcalls le_rfl
  obtain ⟨hfinished, -⟩ := hends context hkeeps
  exact ⟨bound, (execute bound statement context).1, (execute bound statement context).2,
    hfinished, fun more hle => execute_of_le hfinished hle⟩

/-- A function that is there before the statement is executed. -/
def doubling : FunctionDecl :=
  ⟨⟨"double"⟩, [⟨"x"⟩], [.return (.call ⟨"+"⟩ [.simple ⟨"x"⟩, .simple ⟨"x"⟩])]⟩

/-- Declares a function that calls two others, one of which its own body declares, and prints as
often as a call says. -/
def repeatedCalls : Statement :=
  let one : Expr := .simple ⟨"1"⟩
  .block [
    .func ⟨"quadruple"⟩ [⟨"x"⟩] [
      .func ⟨"same"⟩ [⟨"x"⟩] [.return (.simple ⟨"x"⟩)],
      .return (.call ⟨"double"⟩ [.call ⟨"double"⟩ [.call ⟨"same"⟩ [.simple ⟨"x"⟩]]])],
    .repeat (.call ⟨"double"⟩ [one]) [.print (.call ⟨"double"⟩ [one])],
    .print (.call ⟨"quadruple"⟩ [one])]

/-- The function that is declared first calls the others. -/
def callRank (name : String) : Nat :=
  if name = "quadruple" then 1 else 0

def doublingContext : Context where
  functions := ⟨[("double", doubling)]⟩

theorem descending_repeatedCalls_end :
    doublingContext.Descends callRank repeatedCalls ∧
      (∃ bound outcome after, outcome ≠ .unfinished ∧
        ∀ more, bound ≤ more → execute more repeatedCalls doublingContext = (outcome, after)) ∧
      (execute 9 repeatedCalls doublingContext).2.sink.text = "2\n2\n4\n" := by
  have hregistered : ∀ name decl, doublingContext.functions.find? name = some decl →
      name = "double" ∧ decl = doubling := by
    intro name decl hfind
    simpa [doublingContext] using NameTable.mem_of_find? hfind
  have hdescends : doublingContext.Descends callRank repeatedCalls := by
    constructor
    · decide +kernel
    · decide +kernel
    · intro name decl hfind
      obtain ⟨rfl, rfl⟩ := hregistered name decl hfind
      decide +kernel
    · intro name decl hfind
      obtain ⟨rfl, rfl⟩ := hregistered name decl hfind
      decide +kernel
  exact ⟨hdescends, descending_runs_end hdescends, by decide +kernel⟩

end TinyScript
