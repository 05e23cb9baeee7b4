import TinyScript.Proofs.Program.Calls
import TinyScript.Proofs.Memory.Restriction
import TinyScript.Proofs.Run.Evaluation
import TinyScript.Proofs.Run.Footprint
import TinyScript.Proofs.Run.Interference

/-!
# Statements that do not depend on each other

Of two statements neither of which writes under a name of the other, each finds under its own names
what it would find without the other. So they may change places (`independent_statements_commute`).
This is for statements that do nothing but change variables: they print nothing, declare no function
and call none.
-/

namespace TinyScript

/-! ## Plain statements -/

mutual

/-- What a statement prints where it stands. -/
def Statement.printed : Statement → List Expr
  | .assign _ _ => []
  | .block body => Statement.printedAll body
  | .ifElse _ thenBlock elseBlock =>
    Statement.printedAll thenBlock ++ Statement.printedAll elseBlock
  | .while _ body => Statement.printedAll body
  | .repeat _ body => Statement.printedAll body
  | .func _ _ _ => []
  | .return _ => []
  | .print value => [value]

def Statement.printedAll : List Statement → List Expr
  | [] => []
  | statement :: statements => statement.printed ++ Statement.printedAll statements

end

/-- Nothing is printed in the statement, no function is declared in it and none is called by its
name. -/
structure Statement.IsPlain (statement : Statement) : Prop where
  printed : statement.printed = []
  declares : statement.declares = []
  calls : statement.calls = []

namespace Statement

variable {statement member : Statement} {body : Block}

theorem printed_of_mem (h : member ∈ body) : member.printed ⊆ printedAll body :=
  collected_subset rfl (fun _ _ => rfl) h

theorem printed_of_block (h : body ∈ statement.blocks) :
    printedAll body ⊆ statement.printed := by
  refine subset_of_flatMap ?_ h
  cases statement <;> simp [blocks, printed]

/-- What a plain statement executes is plain. -/
theorem IsPlain.of_block (h : statement.IsPlain) (hbody : body ∈ statement.blocks)
    (hmember : member ∈ body) : member.IsPlain where
  printed := List.subset_nil.1 <| h.printed ▸
    List.Subset.trans (printed_of_mem hmember) (printed_of_block hbody)
  declares := List.subset_nil.1 <| h.declares ▸
    List.Subset.trans (declares_subset_all hmember) (declares_of_block hbody)
  calls := List.subset_nil.1 <| h.calls ▸
    List.Subset.trans (calls_of_mem hmember) (calls_of_block hbody)

end Statement

/-- The action changes nothing but variables, however it ends. -/
def Action.ChangesMemoryOnly {α : Type} (action : Action α) : Prop :=
  ∀ context : Context, (action context).2.functions = context.functions ∧
    (action context).2.sink = context.sink

namespace Action

theorem ChangesMemoryOnly.of_run {α : Type} {action : Action α} {context after : Context}
    {outcome : Outcome α} (h : action.ChangesMemoryOnly) (hrun : action context = (outcome, after)) :
    after.functions = context.functions ∧ after.sink = context.sink := by
  have hcontext := h context
  rwa [hrun] at hcontext

theorem closed_changesMemoryOnly : Closed fun _ action => action.ChangesMemoryOnly :=
  closed_of_trans (fun before after => after.functions = before.functions ∧
      after.sink = before.sink)
    (fun _ => ⟨rfl, rfl⟩)
    fun hfirst hsecond => ⟨hsecond.1.trans hfirst.1, hsecond.2.trans hfirst.2⟩

theorem changesMemoryOnly_store (name : String) (value : Value) :
    (store name value).ChangesMemoryOnly := by
  intro context
  unfold store
  split <;> exact ⟨rfl, rfl⟩

end Action

theorem changesMemoryOnly_assign {evaluate : Expr → Action Value} {name : String} {expr : Expr}
    (hevaluate : (evaluate expr).ChangesMemoryOnly) :
    (assign evaluate name expr).ChangesMemoryOnly := by
  intro context
  have hready : (context.ready name).functions = context.functions ∧
      (context.ready name).sink = context.sink := by
    unfold Context.ready
    split <;> exact ⟨rfl, rfl⟩
  have hstore := Action.closed_changesMemoryOnly.storeValue hevaluate
    (Action.changesMemoryOnly_store name) (context.ready name)
  rw [assign_eq]
  split
  · exact ⟨rfl, rfl⟩
  · exact ⟨hstore.1.trans hready.1, hstore.2.trans hready.2⟩

/-- How lines are printed makes no difference where nothing is printed. -/
theorem executeStep_of_printed {statement : Statement} (h : statement.printed = [])
    (print other : String → Action Unit) (evaluate : Expr → Action Value)
    (execute : Statement → Action Flow) (rounds : Nat) :
    executeStep print evaluate execute rounds statement =
      executeStep other evaluate execute rounds statement := by
  cases statement with
  | print value => cases h
  | _ => rfl

theorem changesMemoryOnly_execute (bound : Nat) {statement : Statement} (h : statement.IsPlain) :
    (execute bound statement).ChangesMemoryOnly := by
  have hclosed := Action.closed_changesMemoryOnly
  induction bound generalizing statement with
  | zero => exact hclosed.unfinished
  | succ bound ih =>
      have hexprs : ∀ expr ∈ statement.exprs, (evaluate bound expr).ChangesMemoryOnly := by
        intro expr hexpr context
        have hcalls := Statement.calls_of_expr hexpr
        rw [h.calls] at hcalls
        rw [leavesAll_of_calls_nil bound (List.subset_nil.1 hcalls) context]
        exact ⟨rfl, rfl⟩
      have hblocks : ∀ body ∈ statement.blocks,
          (executeBlock (execute bound) body).ChangesMemoryOnly := by
        intro body hbody context
        exact hclosed.executeAll (fun member hmember => ih (h.of_block hbody hmember)) _
      rw [execute_succ_eq, executeStep_of_printed h.printed Action.printLine fun _ => pure ()]
      apply hclosed.executeStep (fun _ => hclosed.pure ()) hexprs hblocks
      · rintro target value rfl
        exact changesMemoryOnly_assign (hexprs value (by simp [Statement.exprs]))
      · rintro decl rfl
        cases h.declares
      · rintro condition body rfl
        have hcondition := hexprs condition (by simp [Statement.exprs])
        have hbody := hblocks body (by simp [Statement.blocks])
        exact hclosed.whileTrue (hclosed.evaluateCondition hcondition "while") hbody bound

/-! ## One statement behind another -/

/-- Neither statement writes under a name that the other one mentions. -/
structure Statement.Independent (first second : Statement) : Prop where
  first_writes : ∀ name ∈ first.writes, name ∉ second.names
  second_writes : ∀ name ∈ second.writes, name ∉ first.names

theorem Statement.Independent.symm {first second : Statement} (h : first.Independent second) :
    second.Independent first where
  first_writes := h.second_writes
  second_writes := h.first_writes

theorem Statement.not_introduced {statement : Statement} {name : String}
    (h : name ∉ statement.writes) : name ∉ statement.introduces.toList :=
  fun hintroduced => h (mem_writes_of_introduces (Option.mem_toList.1 hintroduced))

theorem bindingAt_of_not_written (bound : Nat) {statement : Statement} {context : Context}
    {name : String} (h : name ∉ statement.writes) (index : Nat) :
    Memory.bindingAt name index (execute bound statement context).2.memory.frames =
      Memory.bindingAt name index context.memory.frames :=
  ((changes bound).2 statement context).bindingAt_of_not_mem h (Statement.not_introduced h)

section

variable {first second : Statement} (h : first.Independent second) (bound : Nat)
  (context : Context)

include h

/-- Under the names of the one statement the other leaves everything as it is. -/
theorem Statement.Independent.agree (hfirst : first.IsPlain) :
    context.Agree .identical (· ∈ second.names) (execute bound first context).2 where
  functions := (changesMemoryOnly_execute bound hfirst context).1
  sink := (changesMemoryOnly_execute bound hfirst context).2
  visible name hname := by
    have hwrites : name ∉ first.writes := fun hwrite => h.first_writes name hwrite hname
    have hchanges := (changes bound).2 first context
    apply Memory.visible_eq_iff.2
    apply hchanges.memory.binding?_eq
    · exact fun hfree => hwrites hfree.1
    · exact fun hfree => Statement.not_introduced hwrites hfree.1

/-- A statement ends behind the other one as it does before it, and the same is visible to it
then. -/
theorem Statement.Independent.execute_eq (hfirst : first.IsPlain) (more : Nat) :
    let middle := (execute bound first context).2
    (execute more second middle).1 = (execute more second context).1 ∧
      (execute more second context).2.Agree .identical (· ∈ second.names)
        (execute more second middle).2 :=
  (respects _ more).2 _ second (fun _ hname => List.mem_append_left _ hname)
    (fun _ hname => List.mem_append_right _ hname) _ _ (h.agree bound context hfirst)

/-- The names of the first statement are bound to the same, whichever statement comes first. -/
theorem Statement.Independent.bindingAt_eq (hsecond : second.IsPlain) (more : Nat) {name : String}
    (hname : name ∈ first.writes) (index : Nat) :
    Memory.bindingAt name index
        (execute bound first (execute more second context).2).2.memory.frames =
      Memory.bindingAt name index
        (execute more second (execute bound first context).2).2.memory.frames := by
  have hother : name ∉ second.writes := fun hwrite =>
    h.second_writes name hwrite (List.mem_append_right _ hname)
  have hfirst := (changes bound).2 first
  have hbetween := ((changes more).2 second context).memory
  rw [bindingAt_of_not_written more hother]
  apply (hfirst context).memory.bindingAt_congr (hfirst _).memory
  · exact hbetween.find?_eq fun hfree => Statement.not_introduced hother hfree.1
  · exact hbetween.length_below
  · exact bindingAt_of_not_written more hother index
  · exact (h.symm.execute_eq more context hsecond bound).2.binding? (List.mem_append_right _ hname)

/-- In both orders the statements lead to the same memory, however they end. -/
theorem Statement.Independent.same (hfirst : first.IsPlain) (hsecond : second.IsPlain)
    (more : Nat) :
    (execute more second (execute bound first context).2).2.memory.Same
      (execute bound first (execute more second context).2).2.memory where
  parents := by
    have hrun (bound : Nat) (statement : Statement) (context : Context) :=
      ((changes bound).2 statement context).memory.parents_eq
    rw [hrun, hrun, hrun, hrun]
  bindings name index := by
    by_cases hname : name ∈ first.writes
    · exact h.bindingAt_eq bound context hsecond more hname index
    · by_cases hother : name ∈ second.writes
      · exact (h.symm.bindingAt_eq more context hfirst bound hother index).symm
      · rw [bindingAt_of_not_written more hother, bindingAt_of_not_written bound hname,
          bindingAt_of_not_written bound hname, bindingAt_of_not_written more hother]

end

/-- If two independent statements come to their ends one behind the other, so they do in the other
order. The memories have the same frames in the end, with the same names and values, and neither the
functions nor the output have changed. -/
theorem independent_statements_commute {first second : Statement} (hfirst : first.IsPlain)
    (hsecond : second.IsPlain) (h : first.Independent second) {bound more : Nat}
    {context middle after : Context}
    (hrunFirst : execute bound first context = (.done .completed, middle))
    (hrunSecond : execute more second middle = (.done .completed, after)) :
    ∃ between last, execute more second context = (.done .completed, between) ∧
      execute bound first between = (.done .completed, last) ∧
      after.memory.Same last.memory ∧
      (after.functions = context.functions ∧ after.sink = context.sink) ∧
      last.functions = context.functions ∧ last.sink = context.sink := by
  have hsame := h.same bound context hfirst hsecond more
  have hsecondEnds := (h.execute_eq bound context hfirst more).1
  have hfirstEnds := (h.symm.execute_eq more context hsecond bound).1
  rcases hbetween : execute more second context with ⟨outcome, between⟩
  rcases hlast : execute bound first between with ⟨another, last⟩
  simp only [hrunFirst, hrunSecond, hbetween, hlast] at hsame hsecondEnds hfirstEnds
  subst hsecondEnds hfirstEnds
  have hmiddleKept := (changesMemoryOnly_execute bound hfirst).of_run hrunFirst
  have hafterKept := (changesMemoryOnly_execute more hsecond).of_run hrunSecond
  have hbetweenKept := (changesMemoryOnly_execute more hsecond).of_run hbetween
  have hlastKept := (changesMemoryOnly_execute bound hfirst).of_run hlast
  exact ⟨between, last, rfl, hlast, hsame,
    ⟨hafterKept.1.trans hmiddleKept.1, hafterKept.2.trans hmiddleKept.2⟩,
    hlastKept.1.trans hbetweenKept.1, hlastKept.2.trans hbetweenKept.2⟩

/-- A block in which there is a variable, and outside of it there is another. -/
def surroundedContext : Context where
  memory := ⟨{ bindings := ⟨[("y", some (.boolean true))]⟩, parent := some 0 },
    [{ bindings := ⟨[("x", some (.boolean true))]⟩ }]⟩

/-- The variable outside is changed, from a block of its own. -/
def outerChange : Statement :=
  .while (.simple ⟨"x"⟩) [.assign ⟨"x"⟩ (.simple ⟨"false"⟩)]

/-- A new variable is introduced next to the other one. -/
def innerChange : Statement :=
  .assign ⟨"z"⟩ (.list [.simple ⟨"y"⟩])

theorem outerChange_commutes :
    outerChange.IsPlain ∧ innerChange.IsPlain ∧ outerChange.Independent innerChange ∧
      ∃ middle after between last,
        execute 4 outerChange surroundedContext = (.done .completed, middle) ∧
          execute 3 innerChange middle = (.done .completed, after) ∧
          execute 3 innerChange surroundedContext = (.done .completed, between) ∧
          execute 4 outerChange between = (.done .completed, last) ∧
          after.memory.Same last.memory := by
  have houter : outerChange.IsPlain := ⟨rfl, rfl, by decide +kernel⟩
  have hinner : innerChange.IsPlain := ⟨rfl, rfl, by decide +kernel⟩
  have hindependent : outerChange.Independent innerChange :=
    ⟨by decide +kernel, by decide +kernel⟩
  have hfirst : (execute 4 outerChange surroundedContext).1 = .done .completed := rfl
  rcases hrun : execute 4 outerChange surroundedContext with ⟨outcome, middle⟩
  have hsecond : (execute 3 innerChange (execute 4 outerChange surroundedContext).2).1 =
      .done .completed := rfl
  rw [hrun] at hfirst hsecond
  obtain rfl : outcome = .done .completed := hfirst
  have hafter : execute 3 innerChange middle =
      (.done .completed, (execute 3 innerChange middle).2) := Prod.ext hsecond rfl
  obtain ⟨between, last, hbetween, hlast, hsame, -⟩ :=
    independent_statements_commute houter hinner hindependent hrun hafter
  exact ⟨houter, hinner, hindependent, middle, _, between, last, rfl, hafter, hbetween, hlast,
    hsame⟩

end TinyScript
