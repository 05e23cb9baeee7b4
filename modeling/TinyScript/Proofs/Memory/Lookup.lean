import TinyScript.Proofs.Memory.Frames

/-!
# What a memory shows

How declaring, storing and entering a scope change what is visible under a name. A store leaves the
shape of every frame alone, and with it the way along which names are looked up.
-/

namespace TinyScript.Memory

/-! ## Finding a frame -/

theorem lt_of_bindingAt {name : String} {index : Nat} {frames : List Frame}
    (h : (bindingAt name index frames).isSome) : index < frames.length := by
  induction frames with
  | nil => simp [bindingAt] at h
  | cons frame below ih =>
      rw [bindingAt] at h
      split at h
      · next hindex =>
          rw [List.length_cons]
          omega
      · have := ih h
        rw [List.length_cons]
        omega

private theorem bindingAt_cons {name : String} {index : Nat} {below : List Frame}
    (frame : Frame) (h : (bindingAt name index below).isSome) :
    bindingAt name index (frame :: below) = bindingAt name index below := by
  have := lt_of_bindingAt h
  rw [bindingAt, if_neg (by omega)]

/-- The frame that a lookup ends in declares the name. -/
theorem bindingAt_of_findFrom {name : String} {start index : Nat} {frames : List Frame}
    (h : findFrom name frames start = some index) : (bindingAt name index frames).isSome := by
  induction frames generalizing start with
  | nil => simp [findFrom] at h
  | cons frame below ih =>
      rw [findFrom] at h
      split at h
      · next hstart =>
          split at h
          · next hcontains =>
              have hindex : below.length = index := hstart.trans (Option.some.inj h)
              rw [bindingAt, if_pos hindex]
              exact hcontains
          · obtain ⟨parent, _, hparent⟩ := Option.bind_eq_some_iff.1 h
            rw [bindingAt_cons frame (ih hparent)]
            exact ih hparent
      · rw [bindingAt_cons frame (ih h)]
        exact ih h

theorem findFrom_congr {frames others : List Frame}
    (h : List.Forall₂ Frame.Updated frames others) (name : String) (start : Nat) :
    findFrom name others start = findFrom name frames start := by
  induction h generalizing start with
  | nil => rfl
  | cons hframe hbelow ih =>
      simp only [findFrom, hbelow.length_eq, hframe.declares, hframe.parent, ih]

/-! ## Storing in a frame -/

theorem length_assignAt (name : String) (value : Value) (index : Nat) (frames : List Frame) :
    (assignAt name value index frames).length = frames.length := by
  induction frames with
  | nil => rfl
  | cons frame below ih =>
      rw [assignAt]
      split
      · rfl
      · rw [List.length_cons, List.length_cons, ih]

theorem bindingAt_assignAt {name : String} {value : Value} {index : Nat} {frames : List Frame}
    (h : index < frames.length) :
    bindingAt name index (assignAt name value index frames) = some (some value) := by
  induction frames with
  | nil => simp at h
  | cons frame below ih =>
      rw [assignAt]
      split
      · next hindex => simp [bindingAt, hindex]
      · next hindex =>
          rw [List.length_cons] at h
          rw [bindingAt, length_assignAt, if_neg hindex]
          exact ih (by omega)

theorem bindingAt_assignAt_ne {name other : String} (h : other ≠ name) (value : Value)
    (index place : Nat) (frames : List Frame) :
    bindingAt other place (assignAt name value index frames) = bindingAt other place frames := by
  induction frames with
  | nil => rfl
  | cons frame below ih =>
      rw [assignAt]
      split
      · simp [bindingAt, h]
      · rw [bindingAt, bindingAt, length_assignAt, ih]

/-- A store relates every frame to its successor by whatever an assignment in it does. -/
theorem forall₂_assignAt {Rel : Frame → Frame → Prop} {name : String} {value : Value}
    {index : Nat} {frames : List Frame} (hrefl : ∀ frame, Rel frame frame)
    (hassign : ∀ frame : Frame, frame.bindings.contains name = true →
      Rel frame (frame.assign name value))
    (h : (bindingAt name index frames).isSome) :
    List.Forall₂ Rel frames (assignAt name value index frames) := by
  have hsame : ∀ rest : List Frame, List.Forall₂ Rel rest rest := fun rest =>
    List.forall₂_same.2 fun frame _ => hrefl frame
  induction frames with
  | nil => exact .nil
  | cons frame below ih =>
      rw [bindingAt] at h
      rw [assignAt]
      split at h
      · next hindex =>
          rw [if_pos hindex]
          exact .cons (hassign frame h) (hsame below)
      · next hindex =>
          rw [if_neg hindex]
          exact .cons (hrefl frame) (ih h)

/-! ## Storing in a memory -/

variable {memory after : Memory} {name other : String} {value : Value}

theorem frames_store (h : memory.store name value = .ok after) :
    ∃ index, memory.find? name = some index ∧
      after.frames = assignAt name value index memory.frames := by
  unfold store at h
  split at h
  · cases h
  · next index hindex =>
      refine ⟨index, hindex, ?_⟩
      split at h
      · next htop =>
          cases h
          rw [frames, frames, assignAt, if_pos htop.symm]
      · next htop =>
          cases h
          rw [frames, frames, assignAt, if_neg (Ne.symm htop)]

theorem exists_store (h : memory.isDeclared name = true) (value : Value) :
    ∃ after, memory.store name value = .ok after := by
  obtain ⟨index, hindex⟩ := Option.isSome_iff_exists.1 h
  unfold store
  rw [hindex]
  dsimp only
  split
  · exact ⟨_, rfl⟩
  · exact ⟨_, rfl⟩

theorem store_of_undeclared (h : memory.isDeclared name = false) (value : Value) :
    memory.store name value = .error (.undeclaredVariable name) := by
  have hfind : memory.find? name = none := by simpa [isDeclared] using h
  unfold store
  rw [hfind]

theorem isDeclared_of_store (h : memory.store name value = .ok after) :
    memory.isDeclared name = true := by
  obtain ⟨index, hindex, _⟩ := frames_store h
  rw [isDeclared, hindex]
  rfl

theorem forall₂_store {Rel : Frame → Frame → Prop} (hrefl : ∀ frame, Rel frame frame)
    (hassign : ∀ frame : Frame, frame.bindings.contains name = true →
      Rel frame (frame.assign name value))
    (h : memory.store name value = .ok after) :
    List.Forall₂ Rel memory.frames after.frames := by
  obtain ⟨index, hindex, hframes⟩ := frames_store h
  rw [hframes]
  exact forall₂_assignAt hrefl hassign (bindingAt_of_findFrom hindex)

theorem updated_store (h : memory.store name value = .ok after) :
    List.Forall₂ Frame.Updated memory.frames after.frames :=
  forall₂_store Frame.Updated.refl (fun _ hframe => Frame.updated_assign hframe value) h

theorem find?_of_updated (h : List.Forall₂ Frame.Updated memory.frames after.frames)
    (name : String) : after.find? name = memory.find? name := by
  have hlength := h.length_eq
  simp only [frames, List.length_cons, Nat.add_right_cancel_iff] at hlength
  rw [find?, find?, findFrom_congr h, hlength]

theorem isDeclared_of_updated (h : List.Forall₂ Frame.Updated memory.frames after.frames)
    (name : String) : after.isDeclared name = memory.isDeclared name := by
  rw [isDeclared, isDeclared, find?_of_updated h]

/-! ## Visibility -/

/-- What a binding shows, or the lack of one. -/
def binding? (memory : Memory) (name : String) : Option (Option Value) :=
  (memory.find? name).bind fun index => bindingAt name index memory.frames

theorem visible_eq_iff :
    after.visible other = memory.visible name ↔ after.binding? other = memory.binding? name := by
  rw [visible, visible, ← binding?, ← binding?]
  rcases after.binding? other with _ | _ | value <;>
    rcases memory.binding? name with _ | _ | value' <;> simp

theorem isSome_binding? (memory : Memory) (name : String) :
    (memory.binding? name).isSome = memory.isDeclared name := by
  unfold binding? isDeclared
  rcases hfind : memory.find? name with _ | index
  · rfl
  · exact bindingAt_of_findFrom hfind

/-- Whether a name is declared follows from what is visible under it. -/
theorem isDeclared_eq_false_iff (memory : Memory) (name : String) :
    memory.isDeclared name = false ↔ memory.visible name = .undeclared := by
  rw [← isSome_binding?, visible, ← binding?]
  rcases memory.binding? name with _ | _ | value <;> simp

theorem isDeclared_congr (h : after.visible other = memory.visible name) :
    after.isDeclared other = memory.isDeclared name := by
  rw [Bool.eq_iff_iff, ← Bool.not_eq_false, ← Bool.not_eq_false (memory.isDeclared name),
    isDeclared_eq_false_iff, isDeclared_eq_false_iff, h]

/-- A name that the top frame declares is found there. -/
theorem find?_top (h : memory.top.bindings.contains name = true) :
    memory.find? name = some memory.below.length := by
  rw [find?, frames, findFrom, if_pos rfl, if_pos h]

theorem contains_top_iff :
    memory.top.bindings.contains name = true ↔ memory.find? name = some memory.below.length := by
  refine ⟨find?_top, fun hplace => ?_⟩
  have hbound := bindingAt_of_findFrom hplace
  rwa [frames, bindingAt, if_pos rfl] at hbound

theorem binding?_top (h : memory.top.bindings.contains name = true) :
    memory.binding? name = memory.top.bindings.find? name := by
  rw [binding?, find?_top h, Option.bind_some, frames, bindingAt, if_pos rfl]

/-- A name that the top frame does not declare is looked for along its parent. -/
theorem binding?_below (h : memory.top.bindings.contains name = false) :
    memory.binding? name = memory.top.parent.bind fun parent =>
      (findFrom name memory.below parent).bind fun index =>
        bindingAt name index memory.below := by
  have hcontains : ¬ memory.top.bindings.contains name = true := by simp [h]
  rw [binding?, find?, frames, findFrom, if_pos rfl, if_neg hcontains, Option.bind_assoc]
  rcases memory.top.parent with _ | parent
  · rfl
  · rw [Option.bind_some, Option.bind_some]
    rcases hfind : findFrom name memory.below parent with _ | index
    · rfl
    · exact bindingAt_cons _ (bindingAt_of_findFrom hfind)

/-- What is not visible is not declared in the top frame either. -/
theorem contains_top (h : memory.isDeclared name = false) :
    memory.top.bindings.contains name = false := by
  rw [← Bool.not_eq_true]
  intro htop
  rw [← isSome_binding?, binding?_top htop] at h
  exact Bool.false_ne_true (h.symm.trans htop)

theorem binding?_nested {frame : Frame} (hparent : frame.parent = some memory.below.length)
    (h : frame.bindings.contains name = false) :
    binding? ⟨frame, memory.frames⟩ name = memory.binding? name := by
  rw [binding?_below h, hparent]
  rfl

theorem binding?_root {frame : Frame} (hparent : frame.parent = none)
    (h : frame.bindings.contains name = false) (below : List Frame) :
    binding? ⟨frame, below⟩ name = none := by
  rw [binding?_below h, hparent]
  rfl

theorem binding?_declare (memory : Memory) (name other : String) :
    (memory.declare name).binding? other =
      if other = name then some none else memory.binding? other := by
  by_cases hother : other = name
  · have hcontains : (memory.declare name).top.bindings.contains other = true := by
      simp [declare, hother]
    rw [binding?_top hcontains, if_pos hother]
    simp [declare, hother]
  · have hsame : (memory.declare name).top.bindings.contains other =
        memory.top.bindings.contains other := by
      simp [declare, hother]
    rw [if_neg hother]
    rcases hcontains : memory.top.bindings.contains other with _ | _
    · rw [binding?_below hcontains, binding?_below (hsame.trans hcontains)]
      rfl
    · rw [binding?_top hcontains, binding?_top (hsame.trans hcontains)]
      simp [declare, hother]

theorem isDeclared_declare (memory : Memory) (name other : String) :
    (memory.declare name).isDeclared other =
      (decide (other = name) || memory.isDeclared other) := by
  rw [← isSome_binding?, binding?_declare, ← isSome_binding?]
  by_cases hother : other = name <;> simp [hother]

/-- What has just been declared can be stored to. -/
theorem exists_store_declare (memory : Memory) (name : String) (value : Value) :
    ∃ after, (memory.declare name).store name value = .ok after := by
  apply exists_store
  simp [isDeclared_declare]

theorem binding?_store (h : memory.store name value = .ok after) (other : String) :
    after.binding? other =
      if other = name then some (some value) else memory.binding? other := by
  obtain ⟨index, hindex, hframes⟩ := frames_store h
  rw [binding?, find?_of_updated (updated_store h), hframes]
  by_cases hother : other = name
  · have hlt : index < memory.frames.length :=
      lt_of_bindingAt (bindingAt_of_findFrom hindex)
    rw [if_pos hother, hother, hindex, Option.bind_some, bindingAt_assignAt hlt]
  · rw [if_neg hother, binding?]
    simp only [bindingAt_assignAt_ne hother]

/-- Nothing of a new block hides what was visible. -/
theorem binding?_beginNested (memory : Memory) (name : String) :
    memory.beginNested.binding? name = memory.binding? name :=
  binding?_nested rfl rfl

theorem binding?_beginFunction (memory : Memory) (name : String) :
    memory.beginFunction.binding? name = none :=
  binding?_root rfl rfl memory.frames

end TinyScript.Memory
