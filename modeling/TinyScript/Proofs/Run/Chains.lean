import TinyScript.Proofs.Program.Calls
import TinyScript.Proofs.Run.Evaluation

/-!
# Chains of comparisons

A chain compares each argument with the one before it and evaluates both of them for that, so most
arguments are evaluated twice (`Chain.Run`). Without calls of functions an evaluation changes
nothing and a second one gives the same again. So nobody can tell such a chain from one that
evaluates each argument once and keeps its value (`comparison_chains_reevaluate`).
-/

namespace TinyScript

/-! ## Expressions that call no function -/

/-- The action ends, whatever the context. -/
def Action.Finishes {α : Type} (action : Action α) : Prop :=
  ∀ context, (action context).1 ≠ .unfinished

theorem Action.sequential_finishes : Sequential fun _ action => action.Finishes where
  pure _ _ := nofun
  failValue _ _ := nofun
  bind {_ _ action next} haction hnext := by
    intro context
    have hends := haction context
    rw [bind_eq]
    rcases hrun : action context with ⟨result | error | _, middle⟩
    · exact hnext result middle
    · exact nofun
    · rw [hrun] at hends
      exact absurd rfl hends

theorem Action.finishes_lookup (name : String) : (lookup name).Finishes := by
  intro context
  unfold lookup
  cases context.memory.lookup name <;> exact nofun

/-- A bound of its size suffices for an expression that calls no function. -/
theorem finishes_of_calls_nil {bound : Nat} {expr : Expr} (h : expr.calls = [])
    (hbound : sizeOf expr ≤ bound) : (evaluate bound expr).Finishes := by
  induction bound generalizing expr with
  | zero => cases expr <;> simp at hbound
  | succ bound ih =>
      apply Action.sequential_finishes.evaluate_succ
      · intro token _ _
        exact Action.finishes_lookup token.spelling
      · intro part hpart
        have hcalls := Expr.calls_of_part hpart
        have hsize := Expr.sizeOf_of_part hpart
        rw [h] at hcalls
        exact ih (List.subset_nil.1 hcalls) (by omega)
      · rintro operator arguments rfl hkind
        have hcall := Expr.mem_calls hkind arguments
        rw [h] at hcall
        exact (List.not_mem_nil hcall).elim
      · exact fun _ _ _ => nofun

/-! ## Chains that keep values -/

namespace Builtin

variable (evaluate : Expr → Action Value)

/-- Compares a value with the first argument and each argument with the one before it, up to the
first pair that is not so related. -/
def compareOnward (operation : Relation) (u : Value) : List Expr → Action Value
  | [] => return .boolean true
  | argument :: arguments => do
    let v ← evaluate argument
    let order ← Action.ofExcept (u.compare v)
    if operation.holds order then compareOnward operation v arguments
    else return .boolean false

/-- Compares neighbours up to the first pair that is not so related. Each argument is evaluated at
most once, and a lone argument is not evaluated. -/
def compareOnce (operation : Relation) : List Expr → Action Value
  | first :: second :: arguments => do
    compareOnward evaluate operation (← evaluate first) (second :: arguments)
  | _ => return .boolean true

variable {evaluate}

/-- A chain compares its first two arguments before it goes on behind the first. -/
theorem compareNeighbours_cons_cons (operation : Relation) (first second : Expr) (rest : List Expr)
    (context : Context) :
    compareNeighbours evaluate operation (first :: second :: rest) context =
      match evaluate first context with
      | (.done u, middle) =>
        match evaluate second middle with
        | (.done v, next) =>
          match u.compare v with
          | .ok order =>
            if operation.holds order then
              compareNeighbours evaluate operation (second :: rest) next
            else (.done (.boolean false), next)
          | .error error => (.failed (.running error), next)
        | (.failed error, next) => (.failed error, next)
        | (.unfinished, next) => (.unfinished, next)
      | (.failed error, middle) => (.failed error, middle)
      | (.unfinished, middle) => (.unfinished, middle) := by
  rw [compareNeighbours, Action.bind_eq]
  rcases evaluate first context with ⟨u | error | _, middle⟩
  · dsimp only
    rw [Action.bind_eq]
    rcases evaluate second middle with ⟨v | error | _, next⟩
    · dsimp only
      cases u.compare v with
      | error error => rfl
      | ok order =>
          dsimp only [Action.ofExcept]
          change (if operation.holds order then _ else _ : Action Value) next = _
          split <;> rfl
    · rfl
    · rfl
  · rfl
  · rfl

theorem compareOnward_cons (operation : Relation) (u : Value) (argument : Expr)
    (arguments : List Expr) (context : Context) :
    compareOnward evaluate operation u (argument :: arguments) context =
      match evaluate argument context with
      | (.done v, next) =>
        match u.compare v with
        | .ok order =>
          if operation.holds order then compareOnward evaluate operation v arguments next
          else (.done (.boolean false), next)
        | .error error => (.failed (.running error), next)
      | (.failed error, next) => (.failed error, next)
      | (.unfinished, next) => (.unfinished, next) := by
  rw [compareOnward, Action.bind_eq]
  rcases evaluate argument context with ⟨v | error | _, next⟩
  · dsimp only
    cases u.compare v with
    | error error => rfl
    | ok order =>
        dsimp only [Action.ofExcept]
        change (if operation.holds order then _ else _ : Action Value) next = _
        split <;> rfl
  · rfl
  · rfl

/-- With the value of its first argument at hand a chain only goes onward. -/
theorem compareNeighbours_eq_onward (operation : Relation) {context : Context} {first : Expr}
    {u : Value} {arguments : List Expr} (hfirst : evaluate first context = (.done u, context))
    (harguments : ∀ argument ∈ arguments, (evaluate argument).LeavesAll) :
    compareNeighbours evaluate operation (first :: arguments) context =
      compareOnward evaluate operation u arguments context := by
  induction arguments generalizing first u with
  | nil => rfl
  | cons second arguments ih =>
      have hleaves := harguments second (by simp) context
      simp only [compareNeighbours_cons_cons, compareOnward_cons, hfirst]
      rcases hsecond : evaluate second context with ⟨v | error | _, middle⟩
      · obtain rfl : middle = context := by rwa [hsecond] at hleaves
        have hrest := ih hsecond fun argument hargument =>
          harguments argument (List.mem_cons_of_mem _ hargument)
        simp only [hrest]
      · rfl
      · rfl

theorem compareNeighbours_eq_once (operation : Relation) {arguments : List Expr}
    (h : ∀ argument ∈ arguments, (evaluate argument).LeavesAll) :
    compareNeighbours evaluate operation arguments =
      compareOnce evaluate operation arguments := by
  funext context
  rcases arguments with _ | ⟨first, _ | ⟨second, arguments⟩⟩
  · rfl
  · rfl
  · have hleaves := h first (by simp) context
    rcases hfirst : evaluate first context with ⟨u | error | _, middle⟩
    · rw [hfirst] at hleaves
      obtain rfl : middle = context := hleaves
      rw [compareNeighbours_eq_onward operation hfirst fun argument hargument =>
        h argument (List.mem_cons_of_mem _ hargument)]
      rw [compareOnce, Action.bind_eq, hfirst]
    · rw [compareNeighbours, compareOnce, Action.bind_eq, Action.bind_eq, hfirst]
    · rw [compareNeighbours, compareOnce, Action.bind_eq, Action.bind_eq, hfirst]

theorem named?_relation (operation : Relation) :
    named? operation.spelling = some (.relation operation) := by
  cases operation <;> decide

end Builtin

/-! ## The evaluations of a chain -/

/-- One evaluation: what was evaluated and where, what it came to and what it left behind. -/
structure Evaluation where
  expr : Expr
  before : Context
  outcome : Outcome Value
  after : Context

/-- The evaluations are made one after the other, each where the one before it left off. -/
def Evaluation.Threaded (evaluate : Expr → Action Value) :
    Context → List Evaluation → Context → Prop
  | context, [], last => last = context
  | context, evaluation :: evaluations, last =>
    evaluation.before = context ∧
      evaluate evaluation.expr context = (evaluation.outcome, evaluation.after) ∧
      Threaded evaluate evaluation.after evaluations last

namespace Chain

/-- The arguments from pair to pair of neighbours: `e1, e2, e2, e3, e3` and so on. -/
def visits (arguments : List Expr) : List Expr :=
  (arguments.zip arguments.tail).flatMap fun pair => [pair.1, pair.2]

theorem visits_cons_cons (first second : Expr) (rest : List Expr) :
    visits (first :: second :: rest) = first :: second :: visits (second :: rest) := rfl

/-- How a chain runs over its pairs of neighbours: the evaluations that it makes, what it comes to
and what it leaves behind. -/
inductive Run (evaluate : Expr → Action Value) (operation : Relation) :
    List Expr → Context → List Evaluation → Outcome Value → Context → Prop
  /-- No pair is left. -/
  | finished {arguments : List Expr} {context : Context} (h : arguments.length ≤ 1) :
      Run evaluate operation arguments context [] (.done (.boolean true)) context
  /-- The left side of a pair has no value. -/
  | leftFails {first second : Expr} {rest : List Expr} {context after : Context}
      {outcome : Outcome Value} (hleft : evaluate first context = (outcome, after))
      (hstop : ∀ u, outcome ≠ .done u) :
      Run evaluate operation (first :: second :: rest) context
        [⟨first, context, outcome, after⟩] outcome after
  /-- The right side of a pair has no value. -/
  | rightFails {first second : Expr} {rest : List Expr} {context middle after : Context}
      {u : Value} {outcome : Outcome Value} (hleft : evaluate first context = (.done u, middle))
      (hright : evaluate second middle = (outcome, after)) (hstop : ∀ v, outcome ≠ .done v) :
      Run evaluate operation (first :: second :: rest) context
        [⟨first, context, .done u, middle⟩, ⟨second, middle, outcome, after⟩] outcome after
  /-- The sides of a pair are of different kinds. -/
  | mismatched {first second : Expr} {rest : List Expr} {context middle after : Context}
      {u v : Value} {error : RuntimeError} (hleft : evaluate first context = (.done u, middle))
      (hright : evaluate second middle = (.done v, after)) (hcompare : u.compare v = .error error) :
      Run evaluate operation (first :: second :: rest) context
        [⟨first, context, .done u, middle⟩, ⟨second, middle, .done v, after⟩]
        (.failed (.running error)) after
  /-- The sides of a pair are not so related. -/
  | violated {first second : Expr} {rest : List Expr} {context middle after : Context}
      {u v : Value} {order : Ordering} (hleft : evaluate first context = (.done u, middle))
      (hright : evaluate second middle = (.done v, after)) (hcompare : u.compare v = .ok order)
      (hholds : operation.holds order = false) :
      Run evaluate operation (first :: second :: rest) context
        [⟨first, context, .done u, middle⟩, ⟨second, middle, .done v, after⟩]
        (.done (.boolean false)) after
  /-- The sides of a pair are so related, and the chain goes on with the next pair. -/
  | related {first second : Expr} {rest : List Expr} {context middle next after : Context}
      {u v : Value} {order : Ordering} {evaluations : List Evaluation} {outcome : Outcome Value}
      (hleft : evaluate first context = (.done u, middle))
      (hright : evaluate second middle = (.done v, next)) (hcompare : u.compare v = .ok order)
      (hholds : operation.holds order = true)
      (hrest : Run evaluate operation (second :: rest) next evaluations outcome after) :
      Run evaluate operation (first :: second :: rest) context
        (⟨first, context, .done u, middle⟩ :: ⟨second, middle, .done v, next⟩ :: evaluations)
        outcome after

namespace Run

variable {evaluate : Expr → Action Value} {operation : Relation} {arguments : List Expr}
  {context after : Context} {evaluations : List Evaluation} {outcome : Outcome Value}

/-- A chain comes to what its run comes to. -/
theorem eq (h : Run evaluate operation arguments context evaluations outcome after) :
    Builtin.compareNeighbours evaluate operation arguments context = (outcome, after) := by
  induction h with
  | @finished arguments context hlength =>
      rcases arguments with _ | ⟨first, _ | ⟨second, rest⟩⟩
      · rfl
      · rfl
      · simp at hlength
  | @leftFails _ _ _ _ _ outcome hleft hstop =>
      rw [Builtin.compareNeighbours_cons_cons, hleft]
      cases outcome with
      | done u => exact absurd rfl (hstop u)
      | failed error => rfl
      | unfinished => rfl
  | @rightFails _ _ _ _ _ _ _ outcome hleft hright hstop =>
      simp only [Builtin.compareNeighbours_cons_cons, hleft, hright]
      cases outcome with
      | done v => exact absurd rfl (hstop v)
      | failed error => rfl
      | unfinished => rfl
  | mismatched hleft hright hcompare =>
      simp only [Builtin.compareNeighbours_cons_cons, hleft, hright, hcompare]
  | violated hleft hright hcompare hholds =>
      simp [Builtin.compareNeighbours_cons_cons, hleft, hright, hcompare, hholds]
  | related hleft hright hcompare hholds _ ih =>
      simp only [Builtin.compareNeighbours_cons_cons, hleft, hright, hcompare, hholds, if_true, ih]

theorem threaded (h : Run evaluate operation arguments context evaluations outcome after) :
    Evaluation.Threaded evaluate context evaluations after := by
  induction h with
  | finished => rfl
  | leftFails hleft => exact ⟨rfl, hleft, rfl⟩
  | rightFails hleft hright => exact ⟨rfl, hleft, rfl, hright, rfl⟩
  | mismatched hleft hright => exact ⟨rfl, hleft, rfl, hright, rfl⟩
  | violated hleft hright => exact ⟨rfl, hleft, rfl, hright, rfl⟩
  | related hleft hright _ _ _ ih => exact ⟨rfl, hleft, rfl, hright, ih⟩

/-- The evaluations go from pair to pair and leave none out. -/
theorem visits (h : Run evaluate operation arguments context evaluations outcome after) :
    evaluations.map Evaluation.expr <+: Chain.visits arguments := by
  induction h with
  | finished => exact List.nil_prefix
  | leftFails => exact ⟨_, rfl⟩
  | rightFails => exact ⟨_, rfl⟩
  | mismatched => exact ⟨_, rfl⟩
  | violated => exact ⟨_, rfl⟩
  | related _ _ _ _ _ ih =>
      rw [visits_cons_cons]
      exact (List.prefix_cons_inj _).2 ((List.prefix_cons_inj _).2 ih)

theorem unique {others : List Evaluation} {another : Outcome Value} {last : Context}
    (h : Run evaluate operation arguments context evaluations outcome after)
    (hother : Run evaluate operation arguments context others another last) :
    others = evaluations := by
  induction h generalizing others with
  | finished hlength =>
      cases hother with
      | finished => rfl
      | _ => simp at hlength
  | leftFails hleft hstop => cases hother <;> grind
  | rightFails hleft hright hstop => cases hother <;> grind
  | mismatched hleft hright hcompare => cases hother <;> grind
  | violated hleft hright hcompare hholds => cases hother <;> grind
  | related hleft hright hcompare hholds _ ih => cases hother <;> grind

end Run

/-- Every chain has a run. -/
theorem exists_run (evaluate : Expr → Action Value) (operation : Relation) (arguments : List Expr)
    (context : Context) : ∃ evaluations outcome after,
      Run evaluate operation arguments context evaluations outcome after := by
  induction arguments generalizing context with
  | nil => exact ⟨_, _, _, .finished (by simp)⟩
  | cons first arguments ih =>
      cases arguments with
      | nil => exact ⟨_, _, _, .finished (by simp)⟩
      | cons second rest =>
          rcases hleft : evaluate first context with ⟨u | error | _, middle⟩
          · rcases hright : evaluate second middle with ⟨v | error | _, next⟩
            · cases hcompare : u.compare v with
              | error error => exact ⟨_, _, _, .mismatched hleft hright hcompare⟩
              | ok order =>
                  cases hholds : operation.holds order with
                  | false => exact ⟨_, _, _, .violated hleft hright hcompare hholds⟩
                  | true =>
                      obtain ⟨evaluations, outcome, after, hrest⟩ := ih next
                      exact ⟨_, _, _, .related hleft hright hcompare hholds hrest⟩
            · exact ⟨_, _, _, .rightFails hleft hright nofun⟩
            · exact ⟨_, _, _, .rightFails hleft hright nofun⟩
          · exact ⟨_, _, _, .leftFails hleft nofun⟩
          · exact ⟨_, _, _, .leftFails hleft nofun⟩

/-- A chain comes to what its run comes to, and nothing else. -/
theorem run_iff {evaluate : Expr → Action Value} {operation : Relation} {arguments : List Expr}
    {context after : Context} {outcome : Outcome Value} :
    Builtin.compareNeighbours evaluate operation arguments context = (outcome, after) ↔
      ∃ evaluations, Run evaluate operation arguments context evaluations outcome after := by
  constructor
  · intro h
    obtain ⟨evaluations, another, last, hrun⟩ :=
      exists_run evaluate operation arguments context
    obtain ⟨rfl, rfl⟩ := Prod.mk.inj (h.symm.trans hrun.eq)
    exact ⟨evaluations, hrun⟩
  · rintro ⟨evaluations, hrun⟩
    exact hrun.eq

end Chain

theorem evaluate_chain (operation : Relation) {arguments : List Expr} (h : arguments ≠ [])
    (bound : Nat) :
    evaluate (bound + 1) (.call ⟨operation.spelling⟩ arguments) =
      Builtin.compareNeighbours (evaluate bound) operation arguments := by
  obtain ⟨first, rest, rfl⟩ := List.exists_cons_of_ne_nil h
  rw [evaluate_succ_eq, evaluateStep, Builtin.named?_relation]
  rfl

/-- A chain of comparisons without calls of functions does what the chain does that evaluates each
argument once: it ends, changes nothing and comes to the same value or error. Whatever its arguments
are, a chain makes exactly the evaluations of its run: both sides of each pair of neighbours, pair
by pair up to the first that is violated or fails, each where the evaluation before it left off. -/
theorem comparison_chains_reevaluate (operation : Relation) {arguments : List Expr}
    (hsome : arguments ≠ []) :
    ((∀ argument ∈ arguments, argument.calls = []) →
      (∀ bound context,
        evaluate (bound + 1) (.call ⟨operation.spelling⟩ arguments) context =
            Builtin.compareOnce (evaluate bound) operation arguments context ∧
          (evaluate (bound + 1) (.call ⟨operation.spelling⟩ arguments) context).2 = context) ∧
      ∃ enough, ∀ bound context, enough ≤ bound →
        (evaluate bound (.call ⟨operation.spelling⟩ arguments) context).1 ≠ .unfinished) ∧
    ∀ bound context outcome after,
      evaluate (bound + 1) (.call ⟨operation.spelling⟩ arguments) context = (outcome, after) ↔
        ∃ evaluations,
          Chain.Run (evaluate bound) operation arguments context evaluations outcome after ∧
            Evaluation.Threaded (evaluate bound) context evaluations after ∧
            evaluations.map Evaluation.expr <+: Chain.visits arguments ∧
            ∀ others another last,
              Chain.Run (evaluate bound) operation arguments context others another last →
                others = evaluations := by
  constructor
  · intro hcalls
    have hcall : (Expr.call ⟨operation.spelling⟩ arguments).calls = [] := by
      have hkind : Token.kind ⟨operation.spelling⟩ ≠ .identifier :=
        Builtin.classify_spelling (.relation operation)
      have hall : Expr.callsAll arguments = arguments.flatMap Expr.calls :=
        collected_eq_flatMap rfl (fun _ _ => rfl) arguments
      rw [Expr.calls, if_neg hkind, List.nil_append, hall, List.flatMap_eq_nil_iff]
      exact hcalls
    refine ⟨fun bound context => ⟨?_, leavesAll_of_calls_nil _ hcall context⟩, ?_⟩
    · rw [evaluate_chain operation hsome, Builtin.compareNeighbours_eq_once]
      exact fun argument hargument => leavesAll_of_calls_nil bound (hcalls argument hargument)
    · exact ⟨_, fun bound context hle => finishes_of_calls_nil hcall hle context⟩
  · intro bound context outcome after
    rw [evaluate_chain operation hsome, Chain.run_iff]
    constructor
    · rintro ⟨evaluations, hrun⟩
      exact ⟨evaluations, hrun, hrun.threaded, hrun.visits, fun _ _ _ hother => hrun.unique hother⟩
    · rintro ⟨evaluations, hrun, -⟩
      exact ⟨evaluations, hrun⟩

/-- A function that prints its argument and returns it. -/
def echo : FunctionDecl :=
  ⟨⟨"f"⟩, [⟨"x"⟩], [.print (.simple ⟨"x"⟩), .return (.simple ⟨"x"⟩)]⟩

def echoContext : Context where
  functions := ⟨[("f", echo)]⟩

/-- Truth values and a character, without a call of a function. -/
def plainChain : List Expr :=
  [.simple ⟨"false"⟩, .call ⟨"not"⟩ [.simple ⟨"false"⟩], .simple ⟨"'a'"⟩]

/-- Characters that are printed when they are evaluated. -/
def echoedChain : List Expr :=
  [.call ⟨"f"⟩ [.simple ⟨"'a'"⟩], .call ⟨"f"⟩ [.simple ⟨"'b'"⟩], .call ⟨"f"⟩ [.simple ⟨"'a'"⟩],
    .call ⟨"f"⟩ [.simple ⟨"'c'"⟩]]

/-- Three characters are printed before the fourth is needed, and the second one twice. -/
theorem echoedChain_reevaluates :
    plainChain ≠ [] ∧ (∀ argument ∈ plainChain, argument.calls = []) ∧
      (Builtin.compareOnce (evaluate 8) .less plainChain echoContext).1 =
        .failed (.running (.comparisonMismatch .boolean .character)) ∧
      evaluate 9 (.call ⟨"<"⟩ plainChain) echoContext =
        (.failed (.running (.comparisonMismatch .boolean .character)), echoContext) ∧
      echoedChain ≠ [] ∧
      ∃ after, evaluate 9 (.call ⟨"<"⟩ echoedChain) echoContext =
          (.done (.boolean false), after) ∧ after.sink.text = "a\nb\nb\na\n" ∧
        ∃ evaluations, Chain.Run (evaluate 8) .less echoedChain echoContext evaluations
          (.done (.boolean false)) after := by
  have hplain : plainChain ≠ [] := nofun
  have hechoed : echoedChain ≠ [] := nofun
  have hcalls : ∀ argument ∈ plainChain, argument.calls = [] := by decide +kernel
  have honce : (Builtin.compareOnce (evaluate 8) .less plainChain echoContext).1 =
      .failed (.running (.comparisonMismatch .boolean .character)) := by decide +kernel
  have hprinted : (evaluate 9 (.call ⟨"<"⟩ echoedChain) echoContext).2.sink.text =
      "a\nb\nb\na\n" := by decide +kernel
  have hfalse : (evaluate 9 (.call ⟨"<"⟩ echoedChain) echoContext).1 =
      .done (.boolean false) := by decide +kernel
  rcases hends : evaluate 9 (.call ⟨"<"⟩ echoedChain) echoContext with ⟨outcome, after⟩
  rw [hends] at hfalse hprinted
  obtain rfl : outcome = .done (.boolean false) := hfalse
  obtain ⟨hsame, -⟩ := (comparison_chains_reevaluate .less hplain).1 hcalls
  obtain ⟨-, hruns⟩ := comparison_chains_reevaluate .less hechoed
  obtain ⟨evaluations, hrun, -⟩ := (hruns 8 echoContext _ _).1 hends
  obtain ⟨honly, hunchanged⟩ := hsame 8 echoContext
  rw [honly] at hunchanged
  have hfails : Builtin.compareOnce (evaluate 8) .less plainChain echoContext =
      (.failed (.running (.comparisonMismatch .boolean .character)), echoContext) :=
    Prod.ext honce hunchanged
  exact ⟨hplain, hcalls, honce, honly.trans hfails, hechoed, after, rfl, hprinted, evaluations,
    hrun⟩

end TinyScript
