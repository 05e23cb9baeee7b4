import TinyScript.Proofs.Memory.Restriction
import TinyScript.Proofs.Run.Interference

/-!
# Blocks and sequences

A block differs from its statements, executed one after another where the block stands
(`Sequence`), only in what becomes of the names that they introduce. These are in different frames
while the two runs go on, and so are the frames of all blocks within. But the same is visible at
every moment, and so nothing else can differ (`block_agrees_with_sequence`).
-/

namespace TinyScript

/-- How statements follow each other: each begins where the one before it left off, up to the first
that fails, returns a value or does not come to its end. -/
inductive Sequence (execute : Statement → Action Flow) :
    List Statement → Context → Outcome Flow → Context → Prop
  | finished {context : Context} : Sequence execute [] context (.done .completed) context
  | stops {statement : Statement} {statements : List Statement} {context after : Context}
      {outcome : Outcome Flow} (hrun : execute statement context = (outcome, after))
      (hstop : outcome ≠ .done .completed) :
      Sequence execute (statement :: statements) context outcome after
  | goesOn {statement : Statement} {statements : List Statement} {context middle after : Context}
      {outcome : Outcome Flow} (hrun : execute statement context = (.done .completed, middle))
      (hrest : Sequence execute statements middle outcome after) :
      Sequence execute (statement :: statements) context outcome after

theorem Flow.andThen_of_completed {first : Action Flow} {context middle : Context}
    (h : first context = (.done .completed, middle)) (next : Action Flow) :
    Flow.andThen first next context = next middle := by
  change Action.bind first _ context = _
  rw [Action.bind, h]

theorem Flow.andThen_of_stopped {first : Action Flow} {context after : Context}
    {outcome : Outcome Flow} (h : first context = (outcome, after))
    (hstop : outcome ≠ .done .completed) (next : Action Flow) :
    Flow.andThen first next context = (outcome, after) := by
  change Action.bind first _ context = _
  rw [Action.bind, h]
  rcases outcome with ⟨_ | value⟩ | error | _
  · exact absurd rfl hstop
  all_goals rfl

theorem sequence_iff {execute : Statement → Action Flow} {statements : List Statement}
    {context after : Context} {outcome : Outcome Flow} :
    Sequence execute statements context outcome after ↔
      executeAll execute statements context = (outcome, after) := by
  constructor
  · intro h
    induction h with
    | finished => rfl
    | stops hrun hstop => exact Flow.andThen_of_stopped hrun hstop _
    | goesOn hrun _ ih => exact (Flow.andThen_of_completed hrun _).trans ih
  · intro h
    induction statements generalizing context with
    | nil =>
        cases h
        exact .finished
    | cons statement statements ih =>
        rcases hrun : execute statement context with ⟨reached, middle⟩
        by_cases hreached : reached = .done .completed
        · subst hreached
          exact .goesOn hrun (ih ((Flow.andThen_of_completed hrun _).symm.trans h))
        · have hstopped := (Flow.andThen_of_stopped hrun hreached _).symm.trans h
          cases hstopped
          exact .stops hrun hreached

/-- All that is visible in a context is visible at the start of a block. -/
theorem Context.agree_beginNested (context : Context) :
    context.Agree .identical (fun _ => True)
      { context with memory := context.memory.beginNested } where
  functions := rfl
  sink := rfl
  visible name _ := Memory.visible_eq_iff.2 (context.memory.binding?_beginNested name)

/-- A block ends like its statements do in sequence, up to the first that fails or returns, and
leaves the same functions and the same output. The memories differ only in that the block has
forgotten the names that were not in the top frame before. -/
theorem block_agrees_with_sequence (bound : Nat) (statements : List Statement)
    (context : Context) :
    let block := execute (bound + 1) (.block statements) context
    let sequence := executeAll (execute bound) statements context
    block.1 = sequence.1 ∧ block.2.sink = sequence.2.sink ∧
      block.2.functions = sequence.2.functions ∧
      (sequence.2.memory.restrictTop context.memory.top).Same block.2.memory ∧
      ∀ (outcome : Outcome Flow) (after : Context),
        Sequence (execute bound) statements context outcome after ↔
          sequence = (outcome, after) := by
  intro block sequence
  let inner := executeAll (execute bound) statements
    { context with memory := context.memory.beginNested }
  have hblock : block = (inner.1, { inner.2 with memory := inner.2.memory.endScope }) := rfl
  have hrespects : (executeAll (execute bound) statements).Respects .identical fun _ => True :=
    (Action.closed_respects _ _).executeAll fun statement _ =>
      (respects _ bound).2 _ statement (fun _ _ => trivial) fun _ _ => trivial
  obtain ⟨houtcome, hagree⟩ := hrespects _ _ context.agree_beginNested
  have hchanges := changes_executeAll fun statement (_ : statement ∈ statements) =>
    (changes bound).2 statement
  have hinner := (hchanges { context with memory := context.memory.beginNested }).memory.nestedIn
  have hsame := hinner.same_restrictTop (hchanges context).memory fun name =>
    hagree.binding? trivial
  rw [hblock]
  exact ⟨houtcome, hagree.sink, hagree.functions, hsame, fun _ _ => sequence_iff⟩

/-- A variable that a block changes. -/
def changedContext : Context where
  memory := ⟨{ bindings := ⟨[("x", some (.boolean true))]⟩ }, []⟩

/-- The statements introduce a name, change another and return before the last of them. -/
def returningStatements : List Statement :=
  [.assign ⟨"y"⟩ (.simple ⟨"x"⟩), .assign ⟨"x"⟩ (.simple ⟨"false"⟩), .return (.simple ⟨"y"⟩),
    .print (.simple ⟨"y"⟩)]

theorem block_forgets_introduced :
    let block := execute 4 (.block returningStatements) changedContext
    let sequence := executeAll (execute 3) returningStatements changedContext
    block.1 = .done (.returning (.boolean true)) ∧
      sequence.2.memory = ⟨{ bindings := ⟨[("x", some (.boolean false)),
        ("y", some (.boolean true))]⟩ }, []⟩ ∧
      block.2.memory = ⟨{ bindings := ⟨[("x", some (.boolean false))]⟩ }, []⟩ ∧
      block.1 = sequence.1 ∧ block.2.sink = sequence.2.sink ∧
      (sequence.2.memory.restrictTop changedContext.memory.top).Same block.2.memory ∧
      Sequence (execute 3) returningStatements changedContext sequence.1 sequence.2 := by
  intro block sequence
  obtain ⟨houtcome, hsink, -, hmemory, hsequence⟩ :=
    block_agrees_with_sequence 3 returningStatements changedContext
  exact ⟨rfl, rfl, rfl, houtcome, hsink, hmemory, (hsequence _ _).2 rfl⟩

end TinyScript
