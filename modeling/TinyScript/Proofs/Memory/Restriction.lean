import TinyScript.Proofs.Memory.Chain

/-!
# Forgetting the names of a frame

Statements that run in a block put their new names in the frame of the block, and without a block
they put them in the frame that is on top already. If the same is visible at the end of both runs,
then to leave the block is to forget these names in the top frame (`NestedIn.same_restrictTop`).
-/

namespace TinyScript

/-- The entries under the names that the predicate allows. -/
def NameTable.restrict {α : Type} (table : NameTable α) (allowed : String → Bool) : NameTable α :=
  ⟨table.entries.filter fun entry => allowed entry.1⟩

private theorem lookup_filter {α : Type} (allowed : String → Bool) (name : String)
    (entries : List (String × α)) :
    (entries.filter fun entry => allowed entry.1).lookup name =
      if allowed name then entries.lookup name else none := by
  induction entries with
  | nil => simp
  | cons entry entries ih =>
      obtain ⟨key, value⟩ := entry
      by_cases hname : name = key
      · subst hname
        cases hallowed : allowed name with
        | true => simp [hallowed]
        | false =>
            rw [hallowed] at ih
            simpa [hallowed] using ih
      · have hkey : (name == key) = false := beq_eq_false_iff_ne.2 hname
        cases hallowed : allowed key <;> simp [List.lookup_cons, hallowed, hkey, ih]

theorem NameTable.find?_restrict {α : Type} (table : NameTable α) (allowed : String → Bool)
    (name : String) :
    (table.restrict allowed).find? name = if allowed name then table.find? name else none :=
  lookup_filter allowed name table.entries

namespace Memory

/-- The memory without the names in the top frame that another frame does not declare. -/
def restrictTop (memory : Memory) (frame : Frame) : Memory where
  top := { memory.top with bindings := memory.top.bindings.restrict frame.bindings.contains }
  below := memory.below

/-- The memories have the same frames: the same parents, and the same bindings in each frame. The
order in which names were entered does not matter. -/
structure Same (first second : Memory) : Prop where
  parents : second.frames.map Frame.parent = first.frames.map Frame.parent
  bindings : ∀ name index,
    bindingAt name index second.frames = bindingAt name index first.frames

theorem bindingAt_restrictTop (memory : Memory) (frame : Frame) (name : String) (index : Nat) :
    bindingAt name index (memory.restrictTop frame).frames =
      if index = memory.below.length ∧ frame.bindings.contains name = false then none
      else bindingAt name index memory.frames := by
  rw [frames, frames, bindingAt, bindingAt]
  by_cases hindex : memory.below.length = index
  · cases hcontains : frame.bindings.contains name <;>
      simp [restrictTop, NameTable.find?_restrict, hindex, hcontains]
  · simp [restrictTop, hindex, Ne.symm hindex]

variable {stored declared : String → Prop} {outer inner last : Memory} {name : String}
  {index : Nat}

theorem Steps.parents_eq (h : Steps stored declared outer last) :
    last.frames.map Frame.parent = outer.frames.map Frame.parent := by
  obtain ⟨htop, hbelow⟩ := h.extended
  have hparents : ∀ {before after : List Frame}, List.Forall₂ Frame.Updated before after →
      after.map Frame.parent = before.map Frame.parent := by
    intro before after hframes
    induction hframes with
    | nil => rfl
    | cons hframe _ ih => rw [List.map_cons, List.map_cons, hframe.parent, ih]
  rw [Memory.frames, Memory.frames, List.map_cons, List.map_cons, htop.parent, hparents hbelow]

/-- In the frame in which a name is visible from the start, both memories have the binding that they
show. -/
theorem NestedIn.bindingAt_of_find? (hinner : NestedIn stored outer inner)
    (hlast : Steps stored declared outer last)
    (hvisible : inner.binding? name = last.binding? name)
    (hplace : outer.find? name = some index) :
    bindingAt name index inner.endScope.frames = bindingAt name index last.frames := by
  have hdeclared : outer.isDeclared name = true := by
    rw [isDeclared, hplace]
    rfl
  have hbinding := hinner.binding?_endScope name
  rwa [if_pos hdeclared, hvisible, binding?, binding?, Steps.find?_of_some hinner.stores hplace,
    hlast.find?_of_some hplace, Option.bind_some, Option.bind_some] at hbinding

/-- Steps without a block lead to what is left of a block, up to new names in the top frame, if in
the end the same is visible. -/
theorem NestedIn.same_restrictTop (hinner : NestedIn stored outer inner)
    (hlast : Steps stored declared outer last)
    (hvisible : ∀ name, inner.binding? name = last.binding? name) :
    (last.restrictTop outer.top).Same inner.endScope where
  parents := (Steps.parents_eq hinner.stores).trans hlast.parents_eq.symm
  bindings name index := by
    rw [bindingAt_restrictTop, hlast.length_below]
    by_cases hplace : outer.find? name = some index
    · rw [if_neg, hinner.bindingAt_of_find? hlast (hvisible name) hplace]
      rintro ⟨rfl, hcontains⟩
      rw [contains_top_iff.2 hplace] at hcontains
      cases hcontains
    · -- In any other frame the steps of both runs have left the binding as it was.
      rw [Steps.bindingAt_eq hinner.stores (fun _ => hplace) fun hname => hname.elim]
      split
      · next htop =>
          obtain ⟨rfl, hcontains⟩ := htop
          rw [frames, bindingAt, if_pos rfl]
          simpa [NameTable.contains] using hcontains
      · next htop =>
          refine (hlast.bindingAt_eq (fun _ => hplace) fun _ _ hindex => ?_).symm
          subst hindex
          exact hplace (contains_top_iff.1 (by simpa using htop))

end Memory

end TinyScript
