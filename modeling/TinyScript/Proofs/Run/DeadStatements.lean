import TinyScript.Proofs.Run.Returns

/-!
# Dead statements

What stands behind a statement that always returns is never reached. So programs that are the same
when they are pruned do the same, also if the functions they call have been pruned: they end in the
same way, with the same memory and the same output (`execute_of_pruned_eq`). With this the returns
in the text of a program and those of its runs agree (`returns_agree_with_syntax`).
-/

namespace TinyScript

/-! ## Contexts with the same functions up to dead statements -/

/-- The contexts differ at most in dead statements of the functions. -/
structure Context.Alike (first second : Context) : Prop where
  memory : second.memory = first.memory
  sink : second.sink = first.sink
  functions : ∀ name, (second.functions.find? name).map FunctionDecl.pruned =
    (first.functions.find? name).map FunctionDecl.pruned

namespace Context.Alike

variable {first second third : Context}

theorem refl (context : Context) : context.Alike context :=
  ⟨rfl, rfl, fun _ => rfl⟩

theorem symm (h : first.Alike second) : second.Alike first :=
  ⟨h.memory.symm, h.sink.symm, fun name => (h.functions name).symm⟩

theorem trans (h : first.Alike second) (hnext : second.Alike third) : first.Alike third :=
  ⟨hnext.memory.trans h.memory, hnext.sink.trans h.sink,
    fun name => (hnext.functions name).trans (h.functions name)⟩

theorem withMemory (h : first.Alike second) (memory : Memory) :
    Context.Alike { first with memory } { second with memory } :=
  ⟨rfl, h.sink, h.functions⟩

theorem contains (h : first.Alike second) (name : String) :
    second.functions.contains name = first.functions.contains name := by
  have hsome := congrArg Option.isSome (h.functions name)
  rwa [Option.isSome_map, Option.isSome_map] at hsome

theorem withFunction (h : first.Alike second) {decl other : FunctionDecl}
    (hdecl : other.pruned = decl.pruned) (memory : Memory) :
    (first.withFunction decl memory).Alike (second.withFunction other memory) := by
  refine ⟨rfl, h.sink, fun name => ?_⟩
  obtain ⟨hname, -, -⟩ := FunctionDecl.pruned_eq_iff.1 hdecl
  rw [Context.withFunction, Context.withFunction, FunctionTable.register, FunctionTable.register,
    NameTable.find?_insert, NameTable.find?_insert, hname]
  split
  · rw [Option.map_some, Option.map_some, hdecl]
  · exact h.functions name

end Context.Alike

namespace Action

variable {α : Type}

/-- The actions do the same up to dead statements. -/
abbrev Matches (action other : Action α) : Prop :=
  Simulates Context.Alike action other

theorem Matches.symm {action other : Action α} (h : action.Matches other) :
    other.Matches action := by
  intro first second halike
  obtain ⟨houtcome, hafter⟩ := h second first halike.symm
  exact ⟨houtcome.symm, hafter.symm⟩

theorem Matches.trans {action other third : Action α} (h : action.Matches other)
    (hnext : other.Matches third) : action.Matches third := by
  intro first second halike
  obtain ⟨houtcome, hafter⟩ := h first second halike
  obtain ⟨houtcome', hafter'⟩ := hnext second second (.refl second)
  exact ⟨houtcome'.trans houtcome, hafter.trans hafter'⟩

theorem congruence_matches : Congruence fun _ action other => action.Matches other :=
  congruence_simulates Context.Alike

theorem compositional_matches : Compositional fun _ action => action.Matches action :=
  congruence_matches.compositional

theorem matches_lookup (name : String) : (lookup name).Matches (lookup name) := by
  intro first second halike
  unfold lookup
  rw [halike.memory]
  cases first.memory.lookup name with
  | ok value => exact ⟨rfl, halike⟩
  | error error => exact ⟨rfl, halike⟩

theorem matches_declare (name : String) : (declare name).Matches (declare name) := by
  intro first second halike
  unfold declare
  rw [halike.memory]
  exact ⟨rfl, halike.withMemory _⟩

theorem matches_store (name : String) (value : Value) :
    (store name value).Matches (store name value) := by
  intro first second halike
  unfold store
  rw [halike.memory]
  cases first.memory.store name value with
  | ok memory => exact ⟨rfl, halike.withMemory memory⟩
  | error error => exact ⟨rfl, halike⟩

theorem matches_write (piece : String) : (write piece).Matches (write piece) := by
  intro first second halike
  unfold write
  rw [halike.sink]
  cases first.sink.write? piece with
  | some sink => exact ⟨rfl, halike.memory, rfl, halike.functions⟩
  | none => exact ⟨rfl, halike⟩

theorem Matches.inScope {action other : Action α} (h : action.Matches other)
    (enter : Memory → Memory) : (inScope enter action).Matches (inScope enter other) := by
  intro first second halike
  obtain ⟨houtcome, hafter⟩ := h _ _ (halike.withMemory (enter first.memory))
  unfold Action.inScope
  rw [halike.memory]
  exact ⟨houtcome, congrArg Memory.endScope hafter.memory, hafter.sink, hafter.functions⟩

end Action

section

variable {evaluate : Expr → Action Value} {execute : Statement → Action Flow}

/-- Pruning changes nothing if statements that should return do. -/
theorem matches_executeAll_pruned (statements : List Statement)
    (hexecute : ∀ statement, (execute statement).Matches (execute statement.pruned))
    (hreturns : ∀ statement, statement.alwaysReturns = true → (execute statement).Returns) :
    (executeAll execute statements).Matches
      (executeAll execute (Statement.prunedAll statements)) := by
  induction statements with
  | nil => exact Action.congruence_matches.pure Flow.completed
  | cons statement statements ih =>
      rw [Statement.prunedAll]
      split
      · next halways =>
          -- The rest is never reached, and neither is the end of the pruned block.
          have hlast := Action.congruence_matches.andThen (hexecute statement)
            (Action.congruence_matches.pure Flow.completed)
          rwa [Flow.andThen_of_returns (hreturns statement halways),
            ← Flow.andThen_of_returns (hreturns statement halways) (executeAll execute statements)]
            at hlast
      · exact Action.congruence_matches.andThen (hexecute statement) ih

/-- Blocks that are the same up to dead statements do the same. -/
theorem matches_executeBlock {body other : Block}
    (hexecute : ∀ statement, (execute statement).Matches (execute statement.pruned))
    (hreturns : ∀ statement, statement.alwaysReturns = true → (execute statement).Returns)
    (hpruned : Statement.prunedAll other = Statement.prunedAll body) :
    (executeBlock execute body).Matches (executeBlock execute other) := by
  have hbody := matches_executeAll_pruned body hexecute hreturns
  have hother := matches_executeAll_pruned other hexecute hreturns
  rw [hpruned] at hother
  exact (hbody.trans hother.symm).inScope Memory.beginNested

theorem matches_applyFunction {decl other : FunctionDecl}
    (hparameters : other.parameters = decl.parameters)
    (hbody : (executeBlock execute decl.body).Matches (executeBlock execute other.body))
    (arguments : List Value) :
    (applyFunction execute decl arguments).Matches (applyFunction execute other arguments) := by
  have hbind := Action.compositional_matches.bindParameters Action.matches_declare
    Action.matches_store decl.parameters arguments
  rw [applyFunction_eq, applyFunction_eq]
  apply Action.Matches.inScope
  apply Action.congruence_matches.runBody _ hbody
  rw [hparameters]
  exact hbind

theorem matches_callFunction {name : String} {arguments : List Expr}
    (hevaluate : ∀ argument ∈ arguments, (evaluate argument).Matches (evaluate argument))
    (hbody : ∀ body other : Block, Statement.prunedAll other = Statement.prunedAll body →
      (executeBlock execute body).Matches (executeBlock execute other)) :
    (callFunction evaluate execute name arguments).Matches
      (callFunction evaluate execute name arguments) := by
  intro first second halike
  rw [callFunction_eq, callFunction_eq]
  have hfound := halike.functions name
  cases hfirst : first.functions.find? name with
  | none =>
      rw [hfirst, Option.map_none, Option.map_eq_none_iff] at hfound
      rw [hfound]
      exact ⟨rfl, halike⟩
  | some decl =>
      rw [hfirst, Option.map_some, Option.map_eq_some_iff] at hfound
      obtain ⟨other, hsecond, hpruned⟩ := hfound
      obtain ⟨-, hparameters, hbodies⟩ := FunctionDecl.pruned_eq_iff.1 hpruned
      rw [hsecond, callFound, callFound, hparameters]
      split
      · have hvalues := Action.compositional_matches.evaluateAll hevaluate
        refine Action.congruence_matches.bind hvalues (fun values => ?_) first second halike
        exact matches_applyFunction hparameters (hbody _ _ hbodies) values
      · exact ⟨rfl, halike⟩

theorem Context.Alike.ready {first second : Context} (h : first.Alike second) (name : String) :
    (first.ready name).Alike (second.ready name) := by
  unfold Context.ready
  rw [h.memory]
  split
  · exact h
  · exact h.withMemory _

theorem matches_assign {name : String} {expr : Expr}
    (hevaluate : (evaluate expr).Matches (evaluate expr)) :
    (assign evaluate name expr).Matches (assign evaluate name expr) := by
  intro first second halike
  rw [assign_eq, assign_eq, halike.contains]
  split
  · exact ⟨rfl, halike⟩
  · have hstore := Action.compositional_matches.storeValue hevaluate (Action.matches_store name)
    exact hstore _ _ (halike.ready name)

end

theorem matches_declareFunction {decl other : FunctionDecl} (h : other.pruned = decl.pruned) :
    (declareFunction decl).Matches (declareFunction other) := by
  intro first second halike
  obtain ⟨hname, -, -⟩ := FunctionDecl.pruned_eq_iff.1 h
  rw [declareFunction_eq, declareFunction_eq, hname, halike.memory, halike.contains]
  split
  · exact ⟨rfl, halike⟩
  · split
    · exact ⟨rfl, halike⟩
    · have hstore := Action.congruence_matches.bind
        (Action.matches_store decl.name.spelling Value.functionMarker) fun _ =>
          Action.congruence_matches.pure Flow.completed
      exact hstore _ _ (halike.withFunction h _)

/-- Nothing that a run does tells a statement from its pruned form. -/
theorem matches_pruned (bound : Nat) :
    (∀ expr, (evaluate bound expr).Matches (evaluate bound expr)) ∧
      ∀ statement : Statement,
        (execute bound statement).Matches (execute bound statement.pruned) := by
  have hself := Action.compositional_matches
  have hcongruence := Action.congruence_matches
  induction bound with
  | zero => exact ⟨fun _ => hself.unfinished, fun _ => hself.unfinished⟩
  | succ bound ih =>
      obtain ⟨ihevaluate, ihexecute⟩ := ih
      have hblock : ∀ body other : Block,
          Statement.prunedAll other = Statement.prunedAll body →
            (executeBlock (execute bound) body).Matches (executeBlock (execute bound) other) :=
        fun body other => matches_executeBlock ihexecute fun _ => returns_execute bound
      have hpruned : ∀ body : Block, (executeBlock (execute bound) body).Matches
          (executeBlock (execute bound) (Statement.prunedAll body)) := fun body =>
        hblock body _ (Statement.prunedAll_prunedAll body)
      constructor
      · intro expr
        apply hself.evaluate_succ
        · exact fun token _ _ => Action.matches_lookup token.spelling
        · exact fun part _ => ihevaluate part
        · exact fun operator arguments _ _ =>
            matches_callFunction (fun argument _ => ihevaluate argument) hblock
        · exact fun error _ => Action.simulates_fail _ error
      · intro statement
        cases statement with
        | assign target value => exact matches_assign (ihevaluate value)
        | block body => exact hpruned body
        | ifElse condition thenBlock elseBlock =>
            have hcondition := hself.evaluateCondition (ihevaluate condition) "if"
            refine hcongruence.bind hcondition fun holds => ?_
            cases holds with
            | true => exact hpruned thenBlock
            | false => exact hpruned elseBlock
        | «while» condition body =>
            have hcondition := hself.evaluateCondition (ihevaluate condition) "while"
            exact hcongruence.whileTrue hcondition (hpruned body) bound
        | «repeat» count body =>
            refine hcongruence.bind (ihevaluate count) fun value => ?_
            refine hcongruence.bind (hself.repeatRounds value) fun rounds => ?_
            exact hcongruence.times (hpruned body) rounds
        | func name parameters body =>
            apply matches_declareFunction
            rw [FunctionDecl.pruned_eq_iff]
            exact ⟨rfl, rfl, Statement.prunedAll_prunedAll body⟩
        | «return» value => exact hself.bind (ihevaluate value) fun _ => hself.pure _
        | print value =>
            refine hself.bind (ihevaluate value) fun result => ?_
            exact hself.bind (hself.printLine Action.matches_write _) fun _ => hself.pure _

/-- Statements that are the same up to dead statements do the same. -/
theorem execute_of_pruned_eq {statement other : Statement} (h : other.pruned = statement.pruned)
    (bound : Nat) : (execute bound statement).Matches (execute bound other) := by
  have hother := (matches_pruned bound).2 other
  rw [h] at hother
  exact ((matches_pruned bound).2 statement).trans hother.symm

/-- A statement without a return in it, outside the bodies of functions, never returns, and is not
refused for a return where nothing can be returned. One that returns on every way through it never
completes, so what stands behind it in a block is dead: the block does the same with anything else
in that place, and so does every program with the block in it or in the functions it calls. To
evaluate an expression is never refused for a return. -/
theorem returns_agree_with_syntax :
    (∀ (bound : Nat) (statement : Statement) (context : Context), statement.mayReturn = false →
      (∀ value, (execute bound statement context).1 ≠ .done (.returning value)) ∧
        (executeTopLevel bound statement context).1 ≠ .failed .returnOutsideFunction) ∧
    (∀ (bound : Nat) (statement : Statement), statement.alwaysReturns = true →
      (∀ context, (execute bound statement context).1 ≠ .done .completed) ∧
        ∀ before tail other : List Statement,
          executeBlock (execute bound) (before ++ statement :: tail) =
              executeBlock (execute bound) (before ++ statement :: other) ∧
            Statement.prunedAll (before ++ statement :: tail) =
              Statement.prunedAll (before ++ statement :: other)) ∧
    (∀ (bound : Nat) (statement other : Statement), other.pruned = statement.pruned →
      ∀ first second : Context, first.Alike second →
        (execute bound other second).1 = (execute bound statement first).1 ∧
          (execute bound statement first).2.Alike (execute bound other second).2) ∧
    ∀ (bound : Nat) (expr : Expr) (context : Context),
      (evaluate bound expr context).1 ≠ .failed .returnOutsideFunction := by
  refine ⟨?_, ?_, ?_, ?_⟩
  · intro bound statement context h
    have hnever : ∀ value, (execute bound statement context).1 ≠ .done (.returning value) := by
      intro value hreturns
      exact nomatch completes_execute bound h context _ hreturns
    refine ⟨hnever, fun hrefused => ?_⟩
    obtain ⟨value, hreturns⟩ := executeTopLevel_refuses hrefused
    exact hnever value hreturns
  · intro bound statement h
    have hreturns := returns_execute bound h
    refine ⟨fun context hcompletes => hreturns context _ hcompletes rfl, ?_⟩
    intro before tail other
    exact ⟨executeBlock_of_returns hreturns before tail other,
      Statement.prunedAll_of_alwaysReturns h before tail other⟩
  · intro bound statement other h
    exact execute_of_pruned_eq h bound
  · intro bound expr context hrefused
    exact isOfRun_of_evaluate hrefused

/-- A statement that returns on both ways through it. -/
def decision : Statement :=
  .ifElse (.simple ⟨"x"⟩) [.return (.simple ⟨"false"⟩)]
    [.block [.return (.simple ⟨"true"⟩)], .print (.simple ⟨"x"⟩)]

/-- A function with dead statements behind the decision. -/
def decisionWith (dead : List Statement) : Statement :=
  .func ⟨"f"⟩ [⟨"x"⟩] (decision :: dead)

/-- A loop with a return in it, but in the body of a function, and a call. -/
def callingLoop : Statement :=
  .while (.simple ⟨"x"⟩) [.func ⟨"g"⟩ [] [.return (.simple ⟨"x"⟩)],
    .assign ⟨"x"⟩ (.call ⟨"f"⟩ [.simple ⟨"x"⟩]), .print (.simple ⟨"x"⟩)]

/-- One variable. -/
def decisionContext : Context where
  memory := ⟨{ bindings := ⟨[("x", some (.boolean true))]⟩ }, []⟩

theorem returns_agree_in_loop :
    let call : Expr := .call ⟨"f"⟩ [.simple ⟨"x"⟩]
    let plain := (execute 9 (decisionWith []) decisionContext).2
    let padded := (execute 9 (decisionWith [.return call]) decisionContext).2
    callingLoop.mayReturn = false ∧
      (executeTopLevel 9 callingLoop padded).1 ≠ .failed .returnOutsideFunction ∧
      decision.alwaysReturns = true ∧ (execute 9 decision padded).1 ≠ .done .completed ∧
      plain.Alike padded ∧ (execute 9 callingLoop padded).1 = (execute 9 callingLoop plain).1 ∧
      (execute 9 callingLoop padded).2.sink.text = "false\n" ∧
      (evaluate 9 call padded).1 ≠ .failed .returnOutsideFunction := by
  intro call plain padded
  obtain ⟨hnever, halways, hdead, hcalls⟩ := returns_agree_with_syntax
  have hloop : callingLoop.mayReturn = false := by decide +kernel
  have hdecision : decision.alwaysReturns = true := by decide +kernel
  have hpruned : (decisionWith [.return call]).pruned = (decisionWith []).pruned := by
    decide +kernel
  have halike : plain.Alike padded :=
    (hdead 9 _ _ hpruned decisionContext decisionContext (.refl _)).2
  exact ⟨hloop, (hnever 9 callingLoop padded hloop).2, hdecision,
    (halways 9 decision hdecision).1 padded, halike,
    (hdead 9 callingLoop callingLoop rfl plain padded halike).1, by decide +kernel,
    hcalls 9 call padded⟩

end TinyScript
