import TinyScript.Proofs.Memory.Chain
import TinyScript.Proofs.Run.Effects

/-!
# Where a statement leaves a trace

A statement writes under the names that it assigns and declares where it stands, and under no
others, whatever functions it calls. Each of these names has one frame in which its binding may
change: the one in which the name is found before the statement, however many scopes the statement
enters and leaves. A name that is not found is only introduced by an assignment or a declaration
itself, and in the top frame (`only_nearest_bindings_change`).
-/

namespace TinyScript

section

variable {stored declared : List String} {before after : Context} {name : String} {index : Nat}

/-- Under a name that is not among those of the changes, all bindings stay. -/
theorem Context.Changes.bindingAt_of_not_mem (h : before.Changes stored declared after)
    (hstored : name ∉ stored) (hdeclared : name ∉ declared) :
    Memory.bindingAt name index after.memory.frames =
      Memory.bindingAt name index before.memory.frames := by
  apply Memory.Steps.bindingAt_eq h.memory
  · intro hfree
    exact absurd hfree.1 hstored
  · intro hfree
    exact absurd hfree.1 hdeclared

/-- A binding that changes is the nearest one, or there was none and it is in the top frame. -/
theorem Context.Changes.place_of_changed (h : before.Changes stored declared after)
    (hchanged : Memory.bindingAt name index after.memory.frames ≠
      Memory.bindingAt name index before.memory.frames) :
    before.memory.nearest? name = some index ∨
      before.memory.nearest? name = none ∧ index = before.memory.below.length ∧
        name ∈ declared := by
  rw [Memory.nearest?_eq]
  by_contra hplace
  rw [not_or] at hplace
  apply hchanged
  apply Memory.Steps.bindingAt_eq h.memory
  · intro _
    exact hplace.1
  · intro hfree hnone hindex
    exact hplace.2 ⟨hnone, hindex, hfree.1⟩

end

/-- However a statement ends, all bindings under names that it neither assigns nor declares where it
stands are as before, in every frame. Under each of the other names at most one binding has changed:
the nearest one, or a new one in the top frame if there was none and the statement is itself the
assignment or the declaration. -/
theorem only_nearest_bindings_change (bound : Nat) (statement : Statement) (context : Context) :
    let before := context.memory
    let after := (execute bound statement context).2.memory
    (∀ name, name ∉ statement.writes → ∀ index,
      Memory.bindingAt name index after.frames = Memory.bindingAt name index before.frames) ∧
    ∀ name index,
      Memory.bindingAt name index after.frames ≠ Memory.bindingAt name index before.frames →
        before.nearest? name = some index ∨
          before.nearest? name = none ∧ index = before.below.length ∧
            statement.introduces = some name := by
  intro before after
  have hchanges := (changes bound).2 statement context
  constructor
  · intro name hname index
    apply hchanges.bindingAt_of_not_mem hname
    intro hintroduced
    exact hname (Statement.mem_writes_of_introduces (Option.mem_toList.1 hintroduced))
  · intro name index hchanged
    refine (hchanges.place_of_changed hchanged).imp_right ?_
    rintro ⟨hnone, hindex, hintroduced⟩
    exact ⟨hnone, hindex, Option.mem_toList.1 hintroduced⟩

/-- A function that assigns to its parameter and to a variable of its own, calls itself and fails. -/
def recklessDecl : FunctionDecl where
  name := ⟨"f"⟩
  parameters := [⟨"y"⟩]
  body := [.assign ⟨"x"⟩ (.simple ⟨"y"⟩),
    .ifElse (.simple ⟨"y"⟩) [.return (.call ⟨"f"⟩ [.simple ⟨"false"⟩])] [],
    .assign ⟨"y"⟩ (.call ⟨"+"⟩ [.simple ⟨"x"⟩, .simple ⟨"x"⟩])]

/-- A block in which one of two variables is hidden by another of its name. -/
def hidingContext : Context where
  memory := ⟨{ bindings := ⟨[("y", none)]⟩, parent := some 0 },
    [{ bindings := ⟨[("x", some (.boolean true)), ("y", some (.boolean true))]⟩ }]⟩
  functions := ⟨[("f", recklessDecl)]⟩

/-- A loop that assigns to both variables and to a third, from a call that fails. -/
def recklessLoop : Statement :=
  .while (.simple ⟨"x"⟩) [.assign ⟨"x"⟩ (.simple ⟨"false"⟩), .assign ⟨"y"⟩ (.simple ⟨"x"⟩),
    .assign ⟨"z"⟩ (.call ⟨"f"⟩ [.simple ⟨"true"⟩])]

theorem only_nearest_bindings_change_behind_failure :
    let before := hidingContext.memory
    let after := (execute 9 recklessLoop hidingContext).2.memory
    Memory.bindingAt "f" 0 after.frames = Memory.bindingAt "f" 0 before.frames ∧
      (Memory.bindingAt "y" 1 after.frames ≠ Memory.bindingAt "y" 1 before.frames ∧
        before.nearest? "y" = some 1) ∧
      Memory.bindingAt "y" 0 after.frames = Memory.bindingAt "y" 0 before.frames ∧
      Memory.bindingAt "z" 1 after.frames = Memory.bindingAt "z" 1 before.frames := by
  intro before after
  obtain ⟨hothers, hnearest⟩ := only_nearest_bindings_change 9 recklessLoop hidingContext
  have hwrites : "f" ∉ recklessLoop.writes := by decide +kernel
  have hunassigned : Memory.bindingAt "y" 1 before.frames = some none := rfl
  have hassigned : (Memory.bindingAt "y" 1 after.frames).any Option.isSome = true := by
    decide +kernel
  have hchanged : Memory.bindingAt "y" 1 after.frames ≠ Memory.bindingAt "y" 1 before.frames := by
    intro hsame
    rw [hsame, hunassigned] at hassigned
    cases hassigned
  have hplace : before.nearest? "y" = some 1 := by
    rcases hnearest "y" 1 hchanged with hplace | ⟨_, _, hnone⟩
    · exact hplace
    · cases hnone
  refine ⟨hothers "f" hwrites 0, ⟨hchanged, hplace⟩, ?_, ?_⟩
  · by_contra hother
    rcases hnearest "y" 0 hother with hsame | ⟨hnone, _⟩
    · exact absurd (hplace.symm.trans hsame) (by decide)
    · exact absurd (hplace.symm.trans hnone) (by decide)
  · by_contra hnew
    rcases hnearest "z" 1 hnew with hsame | ⟨_, _, hnone⟩
    · exact absurd hsame (by decide +kernel)
    · cases hnone

end TinyScript
