import TinyScript.Proofs.Run.Effects

/-!
# What evaluation leaves alone

An expression has no place to write to. Whatever the functions do that it calls, they do it in
frames of their own, and these are gone when the expression is done, whether it has a value or
failed. So memory is what it was before (`evaluation_leaves_memory`). An expression that calls no
function leaves everything as it was.
-/

namespace TinyScript

/-- The action changes nothing, however it ends. -/
def Action.LeavesAll {α : Type} (action : Action α) : Prop :=
  ∀ context : Context, (action context).2 = context

namespace Action

theorem closed_leavesAll : Closed fun _ action => action.LeavesAll :=
  closed_of_trans (fun before after => after = before) (fun _ => rfl)
    fun hfirst hsecond => hsecond.trans hfirst

theorem leavesAll_lookup (name : String) : (lookup name).LeavesAll := by
  intro context
  change (ofExcept (context.memory.lookup name) context).2 = context
  cases context.memory.lookup name with
  | ok value => rfl
  | error error => rfl

end Action

/-- An expression that calls no function changes nothing. -/
theorem leavesAll_of_calls_nil (bound : Nat) {expr : Expr} (h : expr.calls = []) :
    (evaluate bound expr).LeavesAll := by
  induction bound generalizing expr with
  | zero => exact Action.closed_leavesAll.unfinished
  | succ bound ih =>
      apply Action.closed_leavesAll.evaluate_succ
      · intro token _ _
        exact Action.leavesAll_lookup token.spelling
      · intro part hpart
        have hcalls := Expr.calls_of_part hpart
        rw [h] at hcalls
        exact ih (List.subset_nil.1 hcalls)
      · rintro operator arguments rfl hkind
        have hcall := Expr.mem_calls hkind arguments
        rw [h] at hcall
        exact (List.not_mem_nil hcall).elim

/-- However an evaluation ends, memory is what it was before. At most functions are registered that
were not there, and text is printed behind what was printed before; without a call of a function
not even that. -/
theorem evaluation_leaves_memory (bound : Nat) (expr : Expr) (context : Context) :
    let after := (evaluate bound expr context).2
    after.memory = context.memory ∧ context.Extends after ∧
      (expr.calls = [] → after = context) := by
  intro after
  have hchanges := (changes bound).1 expr context
  exact ⟨hchanges.memory_eq, hchanges.toExtends, fun h => leavesAll_of_calls_nil bound h context⟩

/-- A function that prints, declares a function and assigns to its parameter before it fails. -/
def busyDecl : FunctionDecl where
  name := ⟨"f"⟩
  parameters := [⟨"x"⟩]
  body := [.print (.simple ⟨"x"⟩), .func ⟨"g"⟩ [] [], .block [.assign ⟨"x"⟩ (.simple ⟨"y"⟩)]]

/-- The function is declared, and outside of it there is a variable of the name it assigns to. -/
def busyContext : Context where
  memory := ⟨{ bindings := ⟨[("x", some (.boolean true)), ("f", some .functionMarker)]⟩ }, []⟩
  functions := ⟨[("f", busyDecl)]⟩

theorem busy_call_leaves_memory :
    let after := (evaluate 9 (.list [.call ⟨"f"⟩ [.simple ⟨"1"⟩]]) busyContext).2
    after.memory = busyContext.memory ∧ after.functions.contains "g" = true ∧
      after.sink.text = "1\n" ∧
      (evaluate 9 (.call ⟨"not"⟩ [.simple ⟨"x"⟩]) busyContext).2 = busyContext := by
  intro after
  have hregistered : after.functions.contains "g" = true := by decide +kernel
  have hprinted : after.sink.text = "1\n" := by decide +kernel
  have hcalls : (Expr.call ⟨"not"⟩ [.simple ⟨"x"⟩]).calls = [] := by decide +kernel
  exact ⟨(evaluation_leaves_memory 9 _ busyContext).1, hregistered, hprinted,
    (evaluation_leaves_memory 9 _ busyContext).2.2 hcalls⟩

end TinyScript
