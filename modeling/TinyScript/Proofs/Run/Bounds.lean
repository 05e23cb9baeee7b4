import TinyScript.Proofs.Run.Congruence

/-!
# Bounds on the work of a run

What ends within a bound ends in the same way within every larger one (`execute_of_le`). So whether
a run ends, and how, is no matter of the bound that is taken.
-/

namespace TinyScript

namespace Action

variable {α : Type}

/-- The other action does the same wherever the action ends. -/
def Settles (action other : Action α) : Prop :=
  ∀ context, (action context).1 ≠ .unfinished → other context = action context

theorem Settles.refl (action : Action α) : action.Settles action :=
  fun _ _ => rfl

theorem settles_unfinished (other : Action α) : (unfinished : Action α).Settles other :=
  fun _ hends => absurd rfl hends

theorem Settles.bind {β : Type} {action other : Action α} {next continued : α → Action β}
    (haction : action.Settles other) (hnext : ∀ result, (next result).Settles (continued result)) :
    (action >>= next).Settles (other >>= continued) := by
  intro context hends
  have hsame := haction context
  rw [bind_eq] at hends ⊢
  rw [bind_eq]
  rcases hrun : action context with ⟨result | error | _, middle⟩
  · rw [hrun] at hends hsame
    rw [hsame nofun]
    exact hnext result middle hends
  · rw [hrun] at hsame
    rw [hsame nofun]
  · rw [hrun] at hends
    exact absurd rfl hends

theorem Settles.inScope {action other : Action α} (enter : Memory → Memory)
    (h : action.Settles other) : (inScope enter action).Settles (inScope enter other) := by
  intro context hends
  have hsame := h { context with memory := enter context.memory } hends
  unfold Action.inScope
  rw [hsame]

theorem uniform_settles : Uniform fun _ action other => action.Settles other where
  pure _ := .refl _
  bind := .bind
  unfinished := .refl _
  failRunning _ := .refl _
  getMemory := .refl _
  getFunctions := .refl _
  lookup _ := .refl _
  declare _ := .refl _
  store _ _ := .refl _
  register _ := .refl _
  inScope := .inScope

/-- A loop that ends has more rounds to spare. -/
theorem Settles.whileTrue {condition another : Action Bool} {body other : Action Flow}
    (hcondition : condition.Settles another) (hbody : body.Settles other) {rounds more : Nat}
    (hle : rounds ≤ more) :
    (Flow.whileTrue condition body rounds).Settles (Flow.whileTrue another other more) := by
  induction rounds generalizing more with
  | zero => exact settles_unfinished _
  | succ rounds ih =>
      obtain ⟨more, rfl⟩ := Nat.exists_eq_add_one_of_ne_zero (Nat.ne_zero_of_lt hle)
      rw [Flow.whileTrue_succ, Flow.whileTrue_succ]
      refine hcondition.bind fun holds => ?_
      cases holds with
      | true => exact uniform_settles.andThen hbody (ih (Nat.le_of_succ_le_succ hle))
      | false => exact .refl _

end Action

theorem settles_run {bound more : Nat} (hle : bound ≤ more) :
    (∀ expr, (evaluate bound expr).Settles (evaluate more expr)) ∧
      ∀ statement, (execute bound statement).Settles (execute more statement) := by
  induction bound generalizing more with
  | zero => exact ⟨fun _ => Action.settles_unfinished _, fun _ => Action.settles_unfinished _⟩
  | succ bound ih =>
      obtain ⟨more, rfl⟩ := Nat.exists_eq_add_one_of_ne_zero (Nat.ne_zero_of_lt hle)
      have hbound : bound ≤ more := Nat.le_of_succ_le_succ hle
      obtain ⟨hevaluate, hexecute⟩ := ih hbound
      constructor
      · intro expr
        rw [evaluate_succ_eq, evaluate_succ_eq]
        exact Action.uniform_settles.evaluateStep hevaluate hexecute expr
      · intro statement
        rw [execute_succ_eq, execute_succ_eq]
        apply Action.uniform_settles.executeStep hevaluate hexecute
        · exact fun _ => .refl _
        · exact fun hcondition hbody => hcondition.whileTrue hbody hbound

/-- What ends within a bound ends in the same way within every larger one. -/
theorem execute_of_le {bound more : Nat} {statement : Statement} {context : Context}
    (hends : (execute bound statement context).1 ≠ .unfinished) (hle : bound ≤ more) :
    execute more statement context = execute bound statement context :=
  (settles_run hle).2 statement context hends

end TinyScript
