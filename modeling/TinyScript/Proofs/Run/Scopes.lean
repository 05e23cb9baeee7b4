import TinyScript.Proofs.Run.Effects
import TinyScript.Run.Session

/-!
# Scopes are left as they were found

Whatever a statement does and however it ends, it leaves the frames that it found: no more, no
fewer, and with the names they had (`scopes_restored`). Only an assignment and a declaration may add
a name, their own, and they add it to the top frame. So between the statements of a program there is
never more than one frame.
-/

namespace TinyScript

theorem Context.Changes.extended {stored declared : List String} {before after : Context}
    (h : before.Changes stored declared after) :
    before.memory.top.Extended (· ∈ declared) after.memory.top ∧
      List.Forall₂ Frame.Updated before.memory.below after.memory.below := by
  obtain ⟨htop, hbelow⟩ := h.memory.extended
  refine ⟨{ htop with introduces := ?_ }, hbelow⟩
  intro name hname
  exact (htop.introduces name hname).imp_right And.left

theorem Context.Changes.depth_eq {stored declared : List String} {before after : Context}
    (h : before.Changes stored declared after) : after.memory.depth = before.memory.depth := by
  rw [Memory.depth, Memory.depth, h.extended.2.length_eq]

/-- What is executed outside all functions leaves the same context as anywhere else. -/
theorem executeTopLevel_context (bound : Nat) (statement : Statement) (context : Context) :
    (executeTopLevel bound statement context).2 = (execute bound statement context).2 := by
  rw [executeTopLevel_eq]
  rcases execute bound statement context with ⟨⟨_ | value⟩ | error | _, after⟩ <;> rfl

theorem Round.depth_execute (bound : Nat) (context : Context) (statement : Statement) :
    (Round.execute bound context statement).context.memory.depth = context.memory.depth := by
  change (executeTopLevel bound statement context).2.memory.depth = _
  rw [executeTopLevel_context]
  exact ((changes bound).2 statement context).depth_eq

theorem Session.depth_of_step {bound : Nat} {context : Context} {stream rest : TokenStream}
    {round : Round} (h : step bound context stream = .executed round rest) :
    round.context.memory.depth = context.memory.depth := by
  unfold step at h
  split at h
  · cases h
  · cases h
  · split at h
    · cases h
    · cases h
      exact Round.depth_execute _ _ _

theorem Session.depth_of_run (bound : Nat) (context : Context) (stream : TokenStream) :
    ∀ round ∈ (run bound context stream).1,
      round.context.memory.depth = context.memory.depth := by
  fun_induction run bound context stream with
  | case1 => simp
  | case2 context stream round rest hstep hunfinished =>
      intro other hother
      rw [List.mem_singleton.1 hother]
      exact depth_of_step hstep
  | case3 context stream round rest hstep _ rounds ending hrun _ ih =>
      intro other hother
      rcases List.mem_cons.1 hother with rfl | htail
      · exact depth_of_step hstep
      · rw [hrun] at ih
        exact (ih other htail).trans (depth_of_step hstep)

/-- A statement leaves the frames that it found, with at most one name more and no value less. -/
theorem scopes_restored :
    (∀ (bound : Nat) (statement : Statement) (context : Context),
      let after := (execute bound statement context).2.memory
      after.depth = context.memory.depth ∧
        context.memory.top.Extended (fun name => statement.introduces = some name) after.top ∧
        List.Forall₂ Frame.Updated context.memory.below after.below) ∧
      ∀ (bound : Nat) (sink : Sink) (stream : TokenStream),
        ∀ round ∈ (Session.run bound { sink } stream).1, round.context.memory.depth = 1 := by
  constructor
  · intro bound statement context after
    have hchanges := (changes bound).2 statement context
    obtain ⟨htop, hbelow⟩ := hchanges.extended
    refine ⟨hchanges.depth_eq, { htop with introduces := ?_ }, hbelow⟩
    intro name hname
    exact (htop.introduces name hname).imp_right Option.mem_toList.1
  · intro bound sink stream
    exact Session.depth_of_run bound { sink } stream

/-- A call that fails inside a loop, within a session that goes on. -/
def failingSession : String :=
  "func f(x) \x7b while true \x7b y = x return (+ y true) \x7d \x7d z = [(f 1)] z = 2"

theorem scopes_restored_behind_failure :
    ∃ round ∈ (Session.run 20 {} (.ofText failingSession)).1,
      round.context.memory.depth = 1 ∧ round.context.memory.isDeclared "z" = true := by
  obtain ⟨-, hdepth⟩ := scopes_restored
  have hrounds : ((Session.run 20 {} (.ofText failingSession)).1.map fun round =>
      round.context.memory.isDeclared "z") = [false, true, true] := by
    decide +kernel
  have hmember : true ∈ (Session.run 20 {} (.ofText failingSession)).1.map fun round =>
      round.context.memory.isDeclared "z" := by
    rw [hrounds]
    decide
  obtain ⟨round, hround, hdeclared⟩ := List.mem_map.1 hmember
  exact ⟨round, hround, hdepth 20 .unlimited _ round hround, hdeclared⟩

end TinyScript
