import Mathlib.Data.List.Induction
import TinyScript.Proofs.Run.Registry
import TinyScript.Proofs.Run.Scopes

/-!
# Functions and variables share their names

A function is declared only under a name that no visible variable has, and no variable is introduced
under the name of a function. But a call sees none of the variables outside it, so a declaration in
the body of a function may take the name of a variable of the program, or of one that is just being
assigned. This is the only way in which a name comes to stand for both
(`Context.separate_step_iff`), and nothing ever undoes it.
-/

namespace TinyScript

/-- No name of a function stands for anything but the function, in any frame. -/
def Context.Separate (context : Context) : Prop :=
  ∀ name, context.functions.contains name = true →
    ∀ frame ∈ context.memory.frames, ∀ binding,
      frame.bindings.find? name = some binding → binding = some Value.functionMarker

/-- The context behind statements outside all functions, each with a bound of its own. -/
def executeProgram (context : Context) (steps : List (Nat × Statement)) : Context :=
  steps.foldl (fun context step => (executeTopLevel step.1 step.2 context).2) context

/-- The target of an assignment. -/
def Statement.target? : Statement → Option String
  | .assign target _ => some target.spelling
  | _ => none

/-- Behind the statement there is a new function with the name of a global variable: one that was
there before, or the target of the statement. -/
def Context.Clashes (before : Context) (statement : Statement) (after : Context) : Prop :=
  ∃ name, before.functions.contains name = false ∧ after.functions.contains name = true ∧
    (before.memory.top.bindings.contains name = true ∨ statement.target? = some name) ∧
    after.memory.top.bindings.find? name ≠ some (some Value.functionMarker)

/-! ## One statement -/

section

variable {stored declared : List String} {before after : Context} {name : String}

/-- The bindings under the name of a function stay as they are. -/
theorem Context.Changes.find?_of_function (h : before.Changes stored declared after)
    (hname : before.functions.contains name = true) :
    after.memory.top.bindings.find? name = before.memory.top.bindings.find? name := by
  have hne : ∀ {names : List String} {other : String}, before.Free names other →
      name ≠ other := by
    rintro names other hfree rfl
    exact Bool.false_ne_true (hfree.2.symm.trans hname)
  have hfollows : Frame.Follows (before.Free stored) fun frame next =>
      next.bindings.find? name = frame.bindings.find? name := {
    refl := fun _ => rfl
    trans := fun hfirst hsecond => hsecond.trans hfirst
    assign := fun frame other value hfree _ => by simp [Frame.assign, hne hfree] }
  refine (h.memory.frames hfollows hfollows ?_).1
  intro frame other hfree _
  simp [Frame.declare, hne hfree]

theorem Context.separate_iff_of_single (hbelow : before.memory.below = []) :
    before.Separate ↔ ∀ name, before.functions.contains name = true → ∀ binding,
      before.memory.top.bindings.find? name = some binding →
        binding = some Value.functionMarker := by
  constructor
  · intro h name hname
    exact h name hname _ (by simp [Memory.frames])
  · intro h name hname frame hframe
    rw [Memory.frames, hbelow, List.mem_singleton] at hframe
    exact hframe ▸ h name hname

/-- A function that is declared by a statement of its own is marked in memory. -/
theorem find?_declareFunction {decl : FunctionDecl}
    (hbefore : before.functions.contains decl.name.spelling = false)
    (hafter : (declareFunction decl before).2.functions.contains decl.name.spelling = true) :
    (declareFunction decl before).2.memory.top.bindings.find? decl.name.spelling =
      some (some Value.functionMarker) := by
  rcases declareFunction_cases decl before with ⟨error, hrun⟩ | ⟨-, -, memory, hmemory, hrun⟩
  · rw [hrun, hbefore] at hafter
    cases hafter
  · have hcontains : (before.memory.top.declare decl.name.spelling).bindings.contains
        decl.name.spelling = true := by simp [Frame.declare]
    rw [hrun, Context.withFunction, Memory.store_top hcontains hmemory]
    simp [Frame.assign]

/-- A new function whose name was no variable and is not being assigned is marked, if its name is
bound at all. -/
theorem find?_of_introduced {bound : Nat} {statement : Statement}
    (hbefore : before.functions.contains name = false)
    (hafter : (execute bound statement before).2.functions.contains name = true)
    (hnew : before.memory.top.bindings.contains name = false)
    (htarget : statement.target? ≠ some name)
    (hbound : (execute bound statement before).2.memory.top.bindings.contains name = true) :
    (execute bound statement before).2.memory.top.bindings.find? name =
      some (some Value.functionMarker) := by
  obtain ⟨htop, _⟩ := ((changes bound).2 statement before).extended
  rcases htop.introduces name hbound with hold | hintroduced
  · exact (Bool.false_ne_true (hnew.symm.trans hold)).elim
  · rw [Option.mem_toList] at hintroduced
    cases statement with
    | assign target value => exact absurd hintroduced htarget
    | func declared parameters body =>
        cases bound with
        | zero => exact (Bool.false_ne_true (hbefore.symm.trans hafter)).elim
        | succ bound =>
            obtain rfl := Option.some.inj hintroduced
            have hregistered :
                (declareFunction ⟨declared, parameters, body⟩ before).2.functions.contains
                  declared.spelling = true := hafter
            exact find?_declareFunction hbefore hregistered
    | _ => cases hintroduced

theorem contains_of_find? {frame : Frame} {binding : Option Value}
    (h : frame.bindings.find? name = some binding) : frame.bindings.contains name = true := by
  rw [NameTable.contains, h]
  rfl

theorem exists_find?_of_contains {frame : Frame} (h : frame.bindings.contains name = true) :
    ∃ binding, frame.bindings.find? name = some binding :=
  Option.isSome_iff_exists.1 h

theorem Memory.isDeclared_of_single {memory : Memory} (hbelow : memory.below = []) :
    memory.isDeclared name = memory.top.bindings.contains name := by
  rw [← isSome_binding?]
  rcases hcontains : memory.top.bindings.contains name with _ | _
  · rw [binding?_below hcontains, hbelow]
    cases memory.top.parent <;> rfl
  · rw [binding?_top hcontains]
    exact hcontains

/-- An assignment that is not refused leaves its target declared. -/
theorem isDeclared_assign {evaluate : Expr → Action Value} {expr : Expr}
    (hevaluate : (evaluate expr).Changes [] [])
    (hname : before.functions.contains name = false) :
    (assign evaluate name expr before).2.memory.isDeclared name = true := by
  have hready := before.isDeclared_ready name
  rw [assign_eq, hname]
  rcases (storeValue_changes hevaluate (before.ready name)).2 with hsame | ⟨value, hstore⟩
  · exact hsame ▸ hready
  · exact (Memory.isDeclared_of_updated (Memory.updated_store hstore) name).trans hready

theorem isDeclared_target {bound : Nat} {statement : Statement}
    (hbefore : before.functions.contains name = false)
    (hafter : (execute bound statement before).2.functions.contains name = true)
    (htarget : statement.target? = some name) :
    (execute bound statement before).2.memory.isDeclared name = true := by
  cases bound with
  | zero => exact (Bool.false_ne_true (hbefore.symm.trans hafter)).elim
  | succ bound =>
      cases statement with
      | assign target value =>
          obtain rfl := Option.some.inj htarget
          exact isDeclared_assign ((changes bound).1 value) hbefore
      | _ => cases htarget

/-- The names stay separate behind a statement exactly if they were before and do not clash. -/
theorem Context.separate_step_iff {bound : Nat} {statement : Statement}
    (hbelow : before.memory.below = []) :
    (execute bound statement before).2.Separate ↔
      before.Separate ∧ ¬ before.Clashes statement (execute bound statement before).2 := by
  have hchanges := (changes bound).2 statement before
  obtain ⟨htop, hframes⟩ := hchanges.extended
  have hbelowAfter : (execute bound statement before).2.memory.below = [] := by
    rw [hbelow] at hframes
    exact List.forall₂_nil_left_iff.1 hframes
  rw [separate_iff_of_single hbelow, separate_iff_of_single hbelowAfter]
  constructor
  · intro h
    constructor
    · intro name hname binding hbinding
      apply h name (hchanges.contains hname)
      rw [hchanges.find?_of_function hname]
      exact hbinding
    · rintro ⟨name, hbefore, hafter, hvariable, hvalue⟩
      have hbound :
          (execute bound statement before).2.memory.top.bindings.contains name = true := by
        rcases hvariable with hold | htarget
        · exact htop.declares name hold
        · rw [← Memory.isDeclared_of_single hbelowAfter]
          exact isDeclared_target hbefore hafter htarget
      obtain ⟨binding, hbinding⟩ := exists_find?_of_contains hbound
      exact hvalue (h name hafter binding hbinding ▸ hbinding)
  · rintro ⟨h, hclash⟩ name hafter binding hbinding
    rcases hbefore : before.functions.contains name with _ | _
    · have hmark : (execute bound statement before).2.memory.top.bindings.find? name =
          some (some Value.functionMarker) := by
        by_contra hvalue
        have hvariable : ¬ (before.memory.top.bindings.contains name = true ∨
            statement.target? = some name) := fun hvariable =>
          hclash ⟨name, hbefore, hafter, hvariable, hvalue⟩
        rw [not_or, Bool.not_eq_true] at hvariable
        exact hvalue (find?_of_introduced hbefore hafter hvariable.1 hvariable.2
          (contains_of_find? hbinding))
      exact Option.some.inj (hbinding.symm.trans hmark)
    · rw [hchanges.find?_of_function hbefore] at hbinding
      exact h name hbefore binding hbinding

end

/-! ## Programs -/

theorem executeProgram_append (context : Context) (past : List (Nat × Statement))
    (bound : Nat) (statement : Statement) :
    executeProgram context (past ++ [(bound, statement)]) =
      (execute bound statement (executeProgram context past)).2 := by
  rw [executeProgram, List.foldl_append]
  exact executeTopLevel_context bound statement _

theorem below_executeProgram {context : Context} (h : context.memory.below = [])
    (steps : List (Nat × Statement)) : (executeProgram context steps).memory.below = [] := by
  induction steps using List.reverseRecOn with
  | nil => exact h
  | append_singleton past step ih =>
      rw [executeProgram_append]
      have hframes := ((changes step.1).2 step.2 (executeProgram context past)).extended.2
      rw [ih] at hframes
      exact List.forall₂_nil_left_iff.1 hframes

/-- Some statement of the program makes the name of a variable that of a function. -/
def ProgramClashes (context : Context) (steps : List (Nat × Statement)) : Prop :=
  ∃ past bound statement later, steps = past ++ (bound, statement) :: later ∧
    (executeProgram context past).Clashes statement
      (executeProgram context (past ++ [(bound, statement)]))

theorem programClashes_append_iff (context : Context) (past : List (Nat × Statement))
    (bound : Nat) (statement : Statement) :
    ProgramClashes context (past ++ [(bound, statement)]) ↔
      ProgramClashes context past ∨ (executeProgram context past).Clashes statement
        (executeProgram context (past ++ [(bound, statement)])) := by
  constructor
  · rintro ⟨first, round, other, later, hsteps, hclash⟩
    rcases List.eq_nil_or_concat later with rfl | ⟨middle, last, rfl⟩
    · obtain ⟨rfl, hlast⟩ := List.append_inj' hsteps rfl
      cases hlast
      exact .inr hclash
    · have hprefix : past ++ [(bound, statement)] =
          (first ++ (round, other) :: middle) ++ [last] := by
        rw [hsteps, List.concat_eq_append]
        simp
      obtain ⟨rfl, _⟩ := List.append_inj' hprefix rfl
      exact .inl ⟨first, round, other, middle, rfl, hclash⟩
  · rintro (⟨first, round, other, later, rfl, hclash⟩ | hclash)
    · exact ⟨first, round, other, later ++ [(bound, statement)], by simp, hclash⟩
    · exact ⟨past, bound, statement, [], rfl, hclash⟩

theorem separate_executeProgram_iff {context : Context} (hbelow : context.memory.below = [])
    (hseparate : context.Separate) (steps : List (Nat × Statement)) :
    (executeProgram context steps).Separate ↔ ¬ ProgramClashes context steps := by
  induction steps using List.reverseRecOn with
  | nil =>
      have hnone : ¬ ProgramClashes context [] := by
        rintro ⟨past, bound, statement, later, hsteps, _⟩
        simp at hsteps
      exact iff_of_true hseparate hnone
  | append_singleton past step ih =>
      obtain ⟨bound, statement⟩ := step
      rw [programClashes_append_iff, not_or, ← ih, executeProgram_append]
      exact Context.separate_step_iff (below_executeProgram hbelow past)

/-! ## Programs without a clash -/

/-- The functions that are declared in the bodies of functions, in any statement of the program. -/
def innerNames (steps : List (Nat × Statement)) (name : String) : Prop :=
  ∃ step ∈ steps, name ∈ step.2.inner

section

variable {sink : Sink} {steps : List (Nat × Statement)}

/-- All functions of a program declare inner names only. -/
theorem without_executeProgram {inner : String → Prop}
    (hinner : ∀ name, innerNames steps name → inner name) :
    (executeProgram { sink } steps).Without inner (fun _ => False) false := by
  induction steps using List.reverseRecOn with
  | nil =>
      refine ⟨?_, fun _ hname => hname.elim, fun _ _ hname => hname.elim⟩
      intro name decl hfind
      cases hfind
  | append_singleton past step ih =>
      rw [executeProgram_append]
      refine (keepsFree (fun _ _ hname => hname) step.1).2 false step.2 ?_ ?_ _ (ih ?_)
      · intro name hname
        exact hinner name ⟨step, by simp, hname⟩
      · exact .inr fun _ _ hname => hname
      · rintro name ⟨other, hother, hname⟩
        exact hinner name ⟨other, by simp [hother], hname⟩

theorem contains_declareFunction {decl : FunctionDecl} {before : Context} {name : String}
    (h : (declareFunction decl before).2.memory.top.bindings.contains name = true) :
    before.memory.top.bindings.contains name = true ∨
      (declareFunction decl before).2.functions.contains name = true := by
  rcases declareFunction_cases decl before with ⟨error, hrun⟩ | ⟨-, -, memory, -, hrun⟩
  · rw [hrun] at h
    exact .inl h
  · obtain ⟨htop, _⟩ := (changes_declareFunction decl before).extended
    refine (htop.introduces name h).imp_right fun hname => ?_
    rw [hrun, Context.withFunction, FunctionTable.register, NameTable.contains_insert,
      List.mem_singleton.1 hname]
    simp

/-- A global name is that of a function, or some statement assigned it. -/
theorem function_or_target_of_contains {name : String}
    (h : (executeProgram { sink } steps).memory.top.bindings.contains name = true) :
    (executeProgram { sink } steps).functions.contains name = true ∨
      ∃ step ∈ steps, step.2.target? = some name := by
  induction steps using List.reverseRecOn with
  | nil => cases h
  | append_singleton past step ih =>
      obtain ⟨bound, statement⟩ := step
      rw [executeProgram_append] at h ⊢
      have hchanges := (changes bound).2 statement (executeProgram { sink } past)
      have hpast : (executeProgram { sink } past).memory.top.bindings.contains name = true →
          (execute bound statement (executeProgram { sink } past)).2.functions.contains name =
              true ∨
            ∃ step ∈ past ++ [(bound, statement)], step.2.target? = some name := by
        intro hold
        rcases ih hold with hfunction | ⟨other, hother, htarget⟩
        · exact .inl (hchanges.contains hfunction)
        · exact .inr ⟨other, by simp [hother], htarget⟩
      rcases hchanges.extended.1.introduces name h with hold | hintroduced
      · exact hpast hold
      · rw [Option.mem_toList] at hintroduced
        cases statement with
        | assign target value =>
            exact .inr ⟨_, List.mem_append_right _ List.mem_cons_self, hintroduced⟩
        | func declared parameters body =>
            cases bound with
            | zero => exact hpast h
            | succ bound => exact (contains_declareFunction h).elim hpast .inl
        | _ => cases hintroduced

theorem Statement.declares_of_target {statement : Statement} {name : String}
    (h : statement.target? = some name) : statement.declares = [] := by
  cases statement with
  | assign target value => rfl
  | _ => cases h

/-- There is no clash if no statement assigns a name that the body of a function declares. -/
theorem not_programClashes
    (h : ∀ step ∈ steps, ∀ name, step.2.target? = some name → ¬ innerNames steps name) :
    ¬ ProgramClashes { sink } steps := by
  rintro ⟨past, bound, statement, later, rfl, name, hbefore, hafter, hvariable, _⟩
  rw [executeProgram_append] at hafter
  have hknown : (executeProgram { sink } past).Without
      (innerNames (past ++ (bound, statement) :: later)) (fun _ => False) false := by
    apply without_executeProgram
    rintro other ⟨step, hstep, hname⟩
    exact ⟨step, by simp [hstep], hname⟩
  have hstatement : (bound, statement) ∈ past ++ (bound, statement) :: later := by simp
  have hfree : ¬ innerNames (past ++ (bound, statement) :: later) name →
      (executeProgram { sink } past).memory.isDeclared name = true ∨ statement.declares = [] →
      False := by
    intro hname hguard
    have hinner : ∀ other ∈ statement.inner,
        innerNames (past ++ (bound, statement) :: later) other := fun other hother =>
      ⟨_, hstatement, hother⟩
    exact Bool.false_ne_true
      ((free_of_not_inner hknown hinner hname hbefore hguard).symm.trans hafter)
  rcases hvariable with hold | htarget
  · rcases function_or_target_of_contains hold with hfunction | ⟨step, hstep, htarget⟩
    · exact Bool.false_ne_true (hbefore.symm.trans hfunction)
    · apply hfree (h step (by simp [hstep]) name htarget)
      rw [Memory.isDeclared_of_single (below_executeProgram rfl past)]
      exact .inl hold
  · exact hfree (h _ hstatement name htarget) (.inr (Statement.declares_of_target htarget))

end

theorem separate_fresh (sink : Sink) : Context.Separate { sink } := by
  intro name hname
  cases hname

/-- Functions and variables share their names without conflict exactly if no statement makes a
function of the name of a variable. That does not happen where no statement assigns a name that the
body of a function declares. -/
theorem separate_iff_no_clash (sink : Sink) (steps : List (Nat × Statement)) :
    ((executeProgram { sink } steps).Separate ↔ ¬ ProgramClashes { sink } steps) ∧
      ((∀ step ∈ steps, ∀ name, step.2.target? = some name → ¬ innerNames steps name) →
        (executeProgram { sink } steps).Separate) := by
  have hiff := separate_executeProgram_iff rfl (separate_fresh sink) steps
  exact ⟨hiff, fun h => hiff.2 (not_programClashes h)⟩

/-- A function declares another one under the name of a global variable, which it does not see. -/
def clashingProgram (name : String) : List (Nat × Statement) :=
  [(9, .assign ⟨"x"⟩ (.simple ⟨"1"⟩)), (9, .func ⟨"g"⟩ [] [.func ⟨name⟩ [] []]),
    (9, .print (.call ⟨"g"⟩ []))]

/-- The name stands for a function and for a number. -/
theorem not_separate_clashingProgram : ¬ (executeProgram {} (clashingProgram "x")).Separate := by
  intro h
  have hfunction : (executeProgram {} (clashingProgram "x")).functions.contains "x" = true := by
    decide +kernel
  have hnumber : ((executeProgram {} (clashingProgram "x")).memory.top.bindings.find? "x").map
      (Option.map Value.kind) = some (some .number) := by
    decide +kernel
  obtain ⟨binding, hbinding, hkind⟩ := Option.map_eq_some_iff.1 hnumber
  rw [h "x" hfunction _ List.mem_cons_self binding hbinding] at hkind
  cases hkind

theorem separate_otherProgram : (executeProgram {} (clashingProgram "y")).Separate := by
  refine (separate_iff_no_clash .unlimited (clashingProgram "y")).2 ?_
  rintro step hstep name htarget ⟨other, hother, hname⟩
  simp only [clashingProgram, List.mem_cons, List.not_mem_nil, or_false] at hstep hother
  rcases hstep with rfl | rfl | rfl
  · have hx : "x" = name := Option.some.inj htarget
    subst hx
    rcases hother with rfl | rfl | rfl
    all_goals simp [Statement.inner, Statement.innerAll, Statement.declaresAll,
      Statement.declares] at hname
  · cases htarget
  · cases htarget

end TinyScript
