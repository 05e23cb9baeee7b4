import Mathlib.Data.List.Find
import TinyScript.Proofs.Memory.Steps

/-!
# Which bindings a step changes

A name stands for the variable in the first frame that declares it, on the way from the top frame
along parents (`nearest?_eq`). A store changes the binding in that frame, and a declaration adds one
to the top frame. Steps never move the place where a name is found, but a name that is found nowhere
may come to be found in the top frame. So the steps of a whole run change the bindings of a name in
one frame at most, which is known before the first step (`Steps.bindingAt_eq`).
-/

namespace TinyScript.Memory

/-! ## The way of a lookup -/

/-- The indices of the frames on the way from the frame with the given index along parents. -/
def chainFrom : List Frame → Nat → List Nat
  | [], _ => []
  | frame :: below, index =>
    if below.length = index then index :: frame.parent.elim [] (chainFrom below)
    else chainFrom below index

/-- The indices of the frames that are visible, the nearest first. -/
def chain (memory : Memory) : List Nat :=
  chainFrom memory.frames memory.below.length

/-- The index of the nearest frame that declares the name. -/
def nearest? (memory : Memory) (name : String) : Option Nat :=
  memory.chain.find? fun index => (bindingAt name index memory.frames).isSome

theorem lt_of_mem_chainFrom {frames : List Frame} {start index : Nat}
    (h : index ∈ chainFrom frames start) : index < frames.length := by
  induction frames generalizing start with
  | nil => cases h
  | cons frame below ih =>
      rw [List.length_cons]
      rw [chainFrom] at h
      split at h
      · next hstart =>
          rcases List.mem_cons.1 h with rfl | hrest
          · omega
          · cases hparent : frame.parent with
            | none => simp [hparent] at hrest
            | some parent =>
                rw [hparent, Option.elim_some] at hrest
                exact Nat.lt_succ_of_lt (ih hrest)
      · exact Nat.lt_succ_of_lt (ih h)

/-- Frames further up do not matter on the way from a frame down. -/
theorem find?_chainFrom_cons (name : String) (frame : Frame) (below : List Frame) (start : Nat) :
    ((chainFrom below start).find? fun index =>
        (bindingAt name index (frame :: below)).isSome) =
      (chainFrom below start).find? fun index => (bindingAt name index below).isSome := by
  apply List.find?_congr
  intro index hindex
  have hlt := lt_of_mem_chainFrom hindex
  rw [bindingAt, if_neg (Nat.ne_of_gt hlt)]

theorem findFrom_eq (name : String) (frames : List Frame) (start : Nat) :
    findFrom name frames start =
      (chainFrom frames start).find? fun index => (bindingAt name index frames).isSome := by
  induction frames generalizing start with
  | nil => rfl
  | cons frame below ih =>
      rw [findFrom, chainFrom]
      split
      · next hstart =>
          have htop : (bindingAt name start (frame :: below)).isSome =
              frame.bindings.contains name := by
            rw [bindingAt, if_pos hstart, NameTable.contains]
          rw [List.find?_cons, htop]
          cases frame.bindings.contains name with
          | true => rfl
          | false =>
              cases frame.parent with
              | none => rfl
              | some parent =>
                  rw [Option.bind_some, Option.elim_some, find?_chainFrom_cons]
                  exact ih parent
      · rw [find?_chainFrom_cons, ih]

theorem nearest?_eq (memory : Memory) (name : String) :
    memory.nearest? name = memory.find? name :=
  (findFrom_eq name memory.frames memory.below.length).symm

/-! ## One step -/

variable {stored declared : String → Prop} {memory before after : Memory} {name other : String}
  {value : Value} {index : Nat}

theorem find?_of_undeclared (h : memory.isDeclared name = false) : memory.find? name = none := by
  simpa [isDeclared] using h

theorem find?_declare (memory : Memory) (name other : String) :
    (memory.declare name).find? other =
      if other = name then some memory.below.length else memory.find? other := by
  rw [find?, find?, frames, frames, findFrom, findFrom, if_pos rfl, if_pos rfl]
  by_cases hother : other = name
  · simp [declare, hother]
  · simp [declare, hother]

theorem bindingAt_declare (memory : Memory) (name other : String) (index : Nat) :
    bindingAt other index (memory.declare name).frames =
      if other = name ∧ index = memory.below.length then some none
      else bindingAt other index memory.frames := by
  rw [frames, frames, bindingAt, bindingAt]
  by_cases hindex : memory.below.length = index
  · simp [declare, hindex]
  · simp [declare, hindex, Ne.symm hindex]

theorem bindingAt_assignAt_other {place : Nat} (h : place ≠ index) (name : String) (value : Value)
    (frames : List Frame) :
    bindingAt name place (assignAt name value index frames) = bindingAt name place frames := by
  induction frames with
  | nil => rfl
  | cons frame below ih =>
      rw [assignAt]
      split
      · next hindex =>
          have hplace : ¬ below.length = place := fun heq => h (heq.symm.trans hindex)
          rw [bindingAt, bindingAt, if_neg hplace, if_neg hplace]
      · rw [bindingAt, bindingAt, length_assignAt, ih]

/-- A store changes no binding but the one that is found under its name. -/
theorem bindingAt_store (h : memory.store name value = .ok after)
    (hplace : other = name → memory.find? name ≠ some index) :
    bindingAt other index after.frames = bindingAt other index memory.frames := by
  obtain ⟨place, hfound, hframes⟩ := frames_store h
  rw [hframes]
  by_cases hother : other = name
  · subst hother
    apply bindingAt_assignAt_other
    rintro rfl
    exact hplace rfl hfound
  · exact bindingAt_assignAt_ne hother value place index memory.frames

/-- A step changes no binding but the one that is found under its name, or in the top frame one that
was not found. -/
theorem Step.bindingAt_eq (h : Step stored declared before after)
    (hstored : stored name → before.find? name ≠ some index)
    (hdeclared : declared name → before.find? name = none → index ≠ before.below.length) :
    bindingAt name index after.frames = bindingAt name index before.frames := by
  cases h with
  | store hname hstore =>
      apply bindingAt_store hstore
      rintro rfl
      exact hstored hname
  | @declare other hname hnew =>
      rw [bindingAt_declare, if_neg]
      rintro ⟨rfl, hindex⟩
      exact hdeclared hname (find?_of_undeclared hnew) hindex

/-! ## Any number of steps -/

theorem Steps.length_below (h : Steps stored declared before after) :
    after.below.length = before.below.length :=
  h.extended.2.length_eq.symm

/-- A name is found where it was before, or it was not found and is now found in the top frame. -/
theorem Steps.find?_cases (h : Steps stored declared before after) (name : String) :
    after.find? name = before.find? name ∨
      before.find? name = none ∧ declared name ∧ after.find? name = some before.below.length := by
  induction h with
  | refl => exact .inl rfl
  | @tail middle last hsteps hstep ih =>
      cases hstep with
      | store _ hstore =>
          rw [find?_of_updated (updated_store hstore)]
          exact ih
      | @declare other hname hnew =>
          rw [find?_declare, Steps.length_below hsteps]
          split
          · next heq =>
              subst heq
              rw [find?_of_undeclared hnew] at ih
              rcases ih with hbefore | ⟨_, _, hfound⟩
              · exact .inr ⟨hbefore.symm, hname, rfl⟩
              · cases hfound
          · exact ih

theorem Steps.find?_of_some (h : Steps stored declared before after)
    (hplace : before.find? name = some index) : after.find? name = some index := by
  rcases h.find?_cases name with hsame | ⟨hnone, -, -⟩
  · rw [hsame, hplace]
  · rw [hplace] at hnone
    cases hnone

theorem Steps.bindingAt_eq (h : Steps stored declared before after)
    (hstored : stored name → before.find? name ≠ some index)
    (hdeclared : declared name → before.find? name = none → index ≠ before.below.length) :
    bindingAt name index after.frames = bindingAt name index before.frames := by
  induction h with
  | refl => rfl
  | @tail middle last hsteps hstep ih =>
      rw [← ih]
      rcases Steps.find?_cases hsteps name with hsame | ⟨hnone, hname, hfound⟩
      · apply hstep.bindingAt_eq
        · rw [hsame]
          exact hstored
        · rw [hsame, Steps.length_below hsteps]
          exact hdeclared
      · apply hstep.bindingAt_eq
        · intro _ hindex
          rw [hfound, Option.some.injEq] at hindex
          exact hdeclared hname hnone hindex.symm
        · intro _ hmiddle
          rw [hfound] at hmiddle
          cases hmiddle

/-- A name that gets no value and is not declared is as visible as before. -/
theorem Steps.binding?_eq (h : Steps stored declared before after) (hstored : ¬ stored name)
    (hdeclared : ¬ declared name) : after.binding? name = before.binding? name := by
  induction h with
  | refl => rfl
  | tail _ hstep ih =>
      cases hstep with
      | store hname hstore =>
          rw [binding?_store hstore, if_neg, ih]
          rintro rfl
          exact hstored hname
      | declare hname _ =>
          rw [binding?_declare, if_neg, ih]
          rintro rfl
          exact hdeclared hname

theorem Steps.find?_eq (h : Steps stored declared before after) (hdeclared : ¬ declared name) :
    after.find? name = before.find? name := by
  rcases h.find?_cases name with hsame | ⟨-, hname, -⟩
  · exact hsame
  · exact absurd hname hdeclared

/-- A name that is found in no frame but perhaps the top one has there what is visible. -/
theorem bindingAt_top (h : memory.find? name = none ∨
      memory.find? name = some memory.below.length) :
    bindingAt name memory.below.length memory.frames = memory.binding? name := by
  rw [binding?]
  rcases h with hnone | htop
  · rw [hnone, Option.bind_none, frames, bindingAt, if_pos rfl]
    rw [← Option.not_isSome_iff_eq_none]
    intro hcontains
    rw [contains_top_iff.1 hcontains] at hnone
    cases hnone
  · rw [htop, Option.bind_some]

/-- Steps from two memories that find a name in the same place, and have the same there, lead to the
same bindings under the name in all frames if in the end the same is visible. -/
theorem Steps.bindingAt_congr {others fresh : String → Prop} {first last second other : Memory}
    (h : Steps stored declared first last) (hother : Steps others fresh second other)
    (hfind : second.find? name = first.find? name)
    (hlength : second.below.length = first.below.length)
    (hbefore : bindingAt name index second.frames = bindingAt name index first.frames)
    (hvisible : other.binding? name = last.binding? name) :
    bindingAt name index other.frames = bindingAt name index last.frames := by
  by_cases hplace : first.find? name = some index
  · rwa [binding?, binding?, h.find?_of_some hplace, hother.find?_of_some (hfind.trans hplace),
      Option.bind_some, Option.bind_some] at hvisible
  · by_cases htop : first.find? name = none ∧ index = first.below.length
    · -- Where the name may have been declared, both memories have what they show.
      obtain ⟨hnone, rfl⟩ := htop
      have hlast := h.find?_cases name
      have hlastOther := hother.find?_cases name
      rw [hnone, ← h.length_below] at hlast
      rw [hfind, hnone, ← hother.length_below] at hlastOther
      have hsame := bindingAt_top (hlast.imp_right fun hfound => hfound.2.2)
      have hsameOther := bindingAt_top (hlastOther.imp_right fun hfound => hfound.2.2)
      rw [h.length_below] at hsame
      rw [hother.length_below, hlength] at hsameOther
      rw [hsame, hsameOther, hvisible]
    · have hunchanged := h.bindingAt_eq (fun _ => hplace) fun _ hnone hindex =>
        htop ⟨hnone, hindex⟩
      have hunchangedOther := hother.bindingAt_eq (fun _ => hfind ▸ hplace)
        fun _ hnone hindex => htop ⟨hfind ▸ hnone, hlength ▸ hindex⟩
      rw [hunchanged, hunchangedOther, hbefore]

end TinyScript.Memory
