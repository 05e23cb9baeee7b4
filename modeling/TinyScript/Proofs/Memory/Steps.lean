import Mathlib.Logic.Relation
import TinyScript.Proofs.Memory.Lookup

/-!
# Memories that change step by step

What a program does to its variables is a sequence of steps: a visible variable gets a value, or a
name that is not visible is declared. A block, once it is left, has done nothing but stores
(`NestedIn.stores`), and what happens in the scope of a function reaches no frame below it
(`RootOver`). Predicates limit the names that get a value and those that are declared.
-/

namespace TinyScript.Memory

variable {stored declared : String → Prop} {memory before after outer inner rest : Memory}

/-- A visible variable gets a value, or a name that is not visible is declared. Either name is of
those that the predicates allow. -/
inductive Step (stored declared : String → Prop) : Memory → Memory → Prop where
  | store {before after : Memory} {name : String} {value : Value} (hname : stored name)
      (hstore : before.store name value = .ok after) : Step stored declared before after
  | declare {before : Memory} {name : String} (hname : declared name)
      (hnew : before.isDeclared name = false) : Step stored declared before (before.declare name)

abbrev Steps (stored declared : String → Prop) : Memory → Memory → Prop :=
  Relation.ReflTransGen (Step stored declared)

/-- Steps that declare nothing. -/
abbrev Stores (stored : String → Prop) : Memory → Memory → Prop :=
  Steps stored fun _ => False

theorem Steps.mono {others fresh : String → Prop} (h : Steps stored declared before after)
    (hstored : ∀ name, stored name → others name)
    (hdeclared : ∀ name, declared name → fresh name) : Steps others fresh before after := by
  refine Relation.ReflTransGen.mono ?_ _ _ h
  intro first second hstep
  cases hstep with
  | store hname hstore => exact .store (hstored _ hname) hstore
  | declare hname hnew => exact .declare (hdeclared _ hname) hnew

theorem Stores.eq (h : Stores (fun _ => False) before after) : after = before := by
  induction h with
  | refl => rfl
  | tail _ hstep ih =>
      cases hstep with
      | store hname _ => exact hname.elim
      | declare hname _ => exact hname.elim

/-! ## Steps and frames -/

/-- What every step does to the frames: one relation for the top frame, in which names are declared,
and one for the frames below it. -/
theorem Steps.frames {Top Below : Frame → Frame → Prop}
    (htop : Frame.Follows stored Top) (hbelow : Frame.Follows stored Below)
    (hdeclare : ∀ (frame : Frame) (name : String), declared name →
      frame.bindings.contains name = false → Top frame (frame.declare name))
    (h : Steps stored declared before after) :
    Top before.top after.top ∧ List.Forall₂ Below before.below after.below := by
  induction h with
  | refl => exact ⟨htop.refl _, hbelow.refl_all _⟩
  | @tail middle last _ hstep ih =>
      obtain ⟨ihtop, ihbelow⟩ := ih
      cases hstep with
      | store hname hstore =>
          have hframes : List.Forall₂ (fun frame next => Top frame next ∧ Below frame next)
              middle.frames last.frames :=
            forall₂_store (fun frame => ⟨htop.refl frame, hbelow.refl frame⟩)
              (fun frame hframe =>
                ⟨htop.assign frame _ _ hname hframe, hbelow.assign frame _ _ hname hframe⟩) hstore
          obtain ⟨hfirst, hrest⟩ := List.forall₂_cons.1 hframes
          exact ⟨htop.trans ihtop hfirst.1,
            hbelow.trans_all ihbelow (hrest.imp fun _ _ hframe => hframe.2)⟩
      | declare hname hnew =>
          have hcontains : middle.top.bindings.contains _ = false := contains_top hnew
          exact ⟨htop.trans ihtop (hdeclare _ _ hname hcontains), ihbelow⟩

theorem Stores.updated (h : Stores stored before after) :
    List.Forall₂ Frame.Updated before.frames after.frames := by
  have hfollows := Frame.follows_updated stored
  have hframes := Steps.frames hfollows hfollows (fun _ _ hname => hname.elim) h
  exact .cons hframes.1 hframes.2

theorem Stores.isDeclared_eq (h : Stores stored before after) (name : String) :
    after.isDeclared name = before.isDeclared name :=
  isDeclared_of_updated h.updated name

/-- A name that is visible stays so. -/
theorem Steps.isDeclared (h : Steps stored declared before after) {name : String}
    (hname : before.isDeclared name = true) : after.isDeclared name = true := by
  induction h with
  | refl => exact hname
  | tail _ hstep ih =>
      cases hstep with
      | store _ hstore => exact (isDeclared_of_updated (updated_store hstore) name).trans ih
      | declare _ _ => rw [isDeclared_declare, ih, Bool.or_true]

/-- Below the top frame no frame gets a name or loses a value, and the top frame gets no names but
those that may be declared. -/
theorem Steps.extended (h : Steps stored declared before after) :
    before.top.Extended declared after.top ∧
      List.Forall₂ Frame.Updated before.below after.below :=
  h.frames (Frame.follows_extended stored declared) (Frame.follows_updated stored)
    fun _ _ hname hnew => Frame.extended_declare hname hnew

/-! ## The frame of a block -/

theorem frames_injective (h : before.frames = after.frames) : before = after := by
  cases before
  cases after
  simp only [frames, List.cons.injEq] at h
  rw [h.1, h.2]

theorem isDeclared_nested {frame : Frame} {name : String}
    (hparent : frame.parent = some rest.below.length)
    (h : frame.bindings.contains name = false) :
    isDeclared ⟨frame, rest.frames⟩ name = rest.isDeclared name := by
  rw [← isSome_binding?, binding?_nested hparent h, isSome_binding?]

theorem store_top {frame : Frame} {below : List Frame} {name : String} {value : Value}
    (hcontains : frame.bindings.contains name = true)
    (h : store ⟨frame, below⟩ name value = .ok after) :
    after = ⟨frame.assign name value, below⟩ := by
  have hfind : find? ⟨frame, below⟩ name = some below.length := find?_top hcontains
  rw [store, hfind] at h
  dsimp only at h
  rw [if_pos rfl] at h
  cases h
  rfl

/-- A store in a block, of a name that the block does not declare, is a store outside. -/
theorem store_nested {frame : Frame} {name : String} {value : Value}
    (hparent : frame.parent = some rest.below.length)
    (hcontains : frame.bindings.contains name = false)
    (h : store ⟨frame, rest.frames⟩ name value = .ok after) :
    ∃ last, rest.store name value = .ok last ∧ after = ⟨frame, last.frames⟩ := by
  have hdeclared : rest.isDeclared name = true := by
    rw [← isDeclared_nested hparent hcontains]
    exact isDeclared_of_store h
  obtain ⟨last, hlast⟩ := exists_store hdeclared value
  refine ⟨last, hlast, frames_injective ?_⟩
  obtain ⟨index, hindex, hframes⟩ := frames_store h
  obtain ⟨place, hplace, hrest⟩ := frames_store hlast
  have hsame : find? ⟨frame, rest.frames⟩ name = rest.find? name := by
    have hne : ¬ frame.bindings.contains name = true := by simp [hcontains]
    rw [find?, frames, findFrom, if_pos rfl, if_neg hne, hparent]
    rfl
  have heq : index = place := by
    rw [hsame, hplace] at hindex
    exact (Option.some.inj hindex).symm
  have hlt := lt_of_bindingAt (bindingAt_of_findFrom hplace)
  calc after.frames
      = assignAt name value place (frame :: rest.frames) := heq ▸ hframes
    _ = frame :: assignAt name value place rest.frames := by
        rw [assignAt, if_neg (Nat.ne_of_gt hlt)]
    _ = frame :: last.frames := by rw [hrest]

/-- The second memory is a block within a memory that stores lead to from the first. The block
declares no name that was visible before. -/
inductive NestedIn (stored : String → Prop) (outer : Memory) : Memory → Prop where
  | mk {frame : Frame} {rest : Memory} (hparent : frame.parent = some rest.below.length)
      (hstores : Stores stored outer rest)
      (hfresh : ∀ name, frame.bindings.contains name = true → outer.isDeclared name = false) :
      NestedIn stored outer ⟨frame, rest.frames⟩

theorem NestedIn.start (stored : String → Prop) (memory : Memory) :
    NestedIn stored memory memory.beginNested :=
  .mk rfl .refl fun _ hname => by cases hname

theorem NestedIn.step (h : NestedIn stored outer inner)
    (hstep : Step stored declared inner after) : NestedIn stored outer after := by
  obtain @⟨frame, rest, hparent, hstores, hfresh⟩ := h
  cases hstep with
  | @store _ name value hname hstore =>
      rcases hcontains : frame.bindings.contains name with _ | _
      · obtain ⟨last, hlast, rfl⟩ := store_nested hparent hcontains hstore
        have hupdated := (updated_store hlast).length_eq
        simp only [frames, List.length_cons, Nat.add_right_cancel_iff] at hupdated
        exact .mk (hparent.trans (congrArg some hupdated))
          (hstores.tail (.store hname hlast)) hfresh
      · rw [store_top hcontains hstore]
        refine .mk hparent hstores ?_
        intro other hother
        apply hfresh
        rwa [(Frame.updated_assign hcontains value).declares] at hother
  | @declare name hname hnew =>
      refine .mk hparent hstores ?_
      intro other hother
      rw [NameTable.contains_insert, Bool.or_eq_true, decide_eq_true_eq] at hother
      rcases hother with rfl | hold
      · rw [← hstores.isDeclared_eq, ← isDeclared_nested hparent]
        · exact hnew
        · exact contains_top hnew
      · exact hfresh other hold

theorem Steps.nestedIn (h : Steps stored declared outer.beginNested inner) :
    NestedIn stored outer inner := by
  induction h with
  | refl => exact .start stored outer
  | tail _ hstep ih => exact ih.step hstep

/-- Whatever steps a block takes, leaving it leaves stores. -/
theorem NestedIn.stores (h : NestedIn stored outer inner) :
    Stores stored outer inner.endScope := by
  obtain ⟨_, hstores, _⟩ := h
  exact hstores

/-- Behind a block, what was visible before it is as visible as at its end, and nothing else is. -/
theorem NestedIn.binding?_endScope (h : NestedIn stored outer inner) (name : String) :
    inner.endScope.binding? name =
      if outer.isDeclared name then inner.binding? name else none := by
  obtain @⟨frame, rest, hparent, hstores, hfresh⟩ := h
  have hrest : rest.isDeclared name = outer.isDeclared name := hstores.isDeclared_eq name
  change rest.binding? name = _
  split
  · next hdeclared =>
      have hcontains : frame.bindings.contains name = false := by
        rw [← Bool.not_eq_true]
        intro htop
        rw [hfresh name htop] at hdeclared
        cases hdeclared
      rw [binding?_nested hparent hcontains]
  · next hdeclared =>
      rw [← Option.not_isSome_iff_eq_none, isSome_binding?, hrest]
      exact hdeclared

/-! ## The frame of a function -/

/-- The memory is the frame of a function upon the given frames. -/
structure RootOver (below : List Frame) (memory : Memory) : Prop where
  below : memory.below = below
  parent : memory.top.parent = none

theorem rootOver_beginFunction (memory : Memory) :
    RootOver memory.frames memory.beginFunction where
  below := rfl
  parent := rfl

theorem RootOver.declare {below : List Frame} (h : RootOver below memory) (name : String) :
    RootOver below (memory.declare name) where
  below := h.below
  parent := h.parent

/-- In the frame of a function only its own names can be stored to. -/
theorem contains_of_store_root {name : String} {value : Value} (hparent : memory.top.parent = none)
    (hstore : memory.store name value = .ok after) :
    memory.top.bindings.contains name = true := by
  rw [← Bool.not_eq_false]
  intro hnone
  have hdeclared := isDeclared_of_store hstore
  rw [← isSome_binding?, binding?_root hparent hnone memory.below] at hdeclared
  cases hdeclared

theorem RootOver.store {below : List Frame} {name : String} {value : Value}
    (h : RootOver below memory) (hstore : memory.store name value = .ok after) :
    RootOver below after := by
  rw [store_top (contains_of_store_root h.parent hstore) hstore]
  exact ⟨h.below, h.parent⟩

theorem RootOver.steps {below : List Frame} (h : RootOver below before)
    (hsteps : Steps stored declared before after) : RootOver below after := by
  induction hsteps with
  | refl => exact h
  | tail _ hstep ih =>
      cases hstep with
      | store _ hstore => exact ih.store hstore
      | declare _ _ => exact ih.declare _

/-- Leaving the scope of a function restores the memory of its caller. -/
theorem RootOver.endScope_eq (h : RootOver outer.frames memory) : memory.endScope = outer := by
  rw [endScope, h.below]
  rfl

end TinyScript.Memory
