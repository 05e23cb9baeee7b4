import TinyScript.Memory
import TinyScript.Proofs.Program.Renaming

/-!
# Renaming in memory

Everything that is done to a memory under a name is done to the renamed memory under the new name,
and with the same result. Names are only compared with each other, and a renaming keeps different
names apart.
-/

namespace TinyScript

variable (r : Renaming)

namespace NameTable

variable {α β : Type}

/-- The table with its names renamed and its values mapped. -/
def rename (f : α → β) (table : NameTable α) : NameTable β :=
  ⟨table.entries.map fun entry => (r entry.1, f entry.2)⟩

private theorem lookup_map (f : α → β) (name : String) (entries : List (String × α)) :
    (entries.map fun entry => (r entry.1, f entry.2)).lookup (r name) =
      (entries.lookup name).map f := by
  induction entries with
  | nil => rfl
  | cons entry entries ih =>
      obtain ⟨key, value⟩ := entry
      by_cases hname : name = key
      · simp [hname]
      · have hne : r name ≠ r key := fun h => hname (r.apply_inj.1 h)
        simp [List.lookup_cons, beq_eq_false_iff_ne.2 hname, beq_eq_false_iff_ne.2 hne, ih]

private theorem map_insertEntry (f : α → β) (name : String) (value : α)
    (entries : List (String × α)) :
    (insertEntry name value entries).map (fun entry => (r entry.1, f entry.2)) =
      insertEntry (r name) (f value) (entries.map fun entry => (r entry.1, f entry.2)) := by
  induction entries with
  | nil => rfl
  | cons entry entries ih =>
      obtain ⟨key, old⟩ := entry
      by_cases hkey : key = name
      · simp [insertEntry, hkey]
      · simp [insertEntry, hkey, r.apply_inj, ih]

theorem find?_rename (f : α → β) (table : NameTable α) (name : String) :
    (table.rename r f).find? (r name) = (table.find? name).map f :=
  lookup_map r f name table.entries

theorem contains_rename (f : α → β) (table : NameTable α) (name : String) :
    (table.rename r f).contains (r name) = table.contains name := by
  rw [contains, find?_rename, Option.isSome_map, contains]

theorem insert_rename (f : α → β) (table : NameTable α) (name : String) (value : α) :
    (table.insert name value).rename r f = (table.rename r f).insert (r name) (f value) :=
  congrArg NameTable.mk (map_insertEntry r f name value table.entries)

end NameTable

/-! ## Frames -/

def Frame.rename (frame : Frame) : Frame :=
  { frame with bindings := frame.bindings.rename r id }

namespace Memory

def rename (memory : Memory) : Memory :=
  ⟨memory.top.rename r, memory.below.map (Frame.rename r)⟩

theorem frames_rename (memory : Memory) :
    (memory.rename r).frames = memory.frames.map (Frame.rename r) := rfl

theorem findFrom_rename (name : String) (frames : List Frame) (start : Nat) :
    findFrom (r name) (frames.map (Frame.rename r)) start = findFrom name frames start := by
  induction frames generalizing start with
  | nil => rfl
  | cons frame below ih =>
      simp only [List.map_cons, findFrom, List.length_map, Frame.rename,
        NameTable.contains_rename, ih]

theorem bindingAt_rename (name : String) (index : Nat) (frames : List Frame) :
    bindingAt (r name) index (frames.map (Frame.rename r)) = bindingAt name index frames := by
  induction frames with
  | nil => rfl
  | cons frame below ih =>
      simp only [List.map_cons, bindingAt, List.length_map, Frame.rename, NameTable.find?_rename,
        Option.map_id_fun, id_eq, ih]

theorem assignAt_rename (name : String) (value : Value) (index : Nat) (frames : List Frame) :
    assignAt (r name) value index (frames.map (Frame.rename r)) =
      (assignAt name value index frames).map (Frame.rename r) := by
  induction frames with
  | nil => rfl
  | cons frame below ih =>
      rw [List.map_cons, assignAt, assignAt, List.length_map, ih]
      split
      · simp only [List.map_cons, Frame.rename, NameTable.insert_rename, id_eq]
      · rfl

/-! ## Memories -/

theorem find?_rename (memory : Memory) (name : String) :
    (memory.rename r).find? (r name) = memory.find? name := by
  rw [find?, frames_rename, findFrom_rename, find?, rename, List.length_map]

theorem isDeclared_rename (memory : Memory) (name : String) :
    (memory.rename r).isDeclared (r name) = memory.isDeclared name := by
  rw [isDeclared, find?_rename, isDeclared]

theorem visible_rename (memory : Memory) (name : String) :
    (memory.rename r).visible (r name) = memory.visible name := by
  simp only [visible, find?_rename, frames_rename, bindingAt_rename]

theorem lookup_rename (memory : Memory) (name : String) :
    (memory.rename r).lookup (r name) = (memory.lookup name).mapError (RuntimeError.rename r) := by
  rw [lookup, lookup, visible_rename]
  cases memory.visible name <;> rfl

theorem store_rename (memory : Memory) (name : String) (value : Value) :
    (memory.rename r).store (r name) value =
      ((memory.store name value).map (rename r)).mapError (RuntimeError.rename r) := by
  rw [store, store, find?_rename]
  cases memory.find? name with
  | none => rfl
  | some index =>
      by_cases hindex : index = memory.below.length
      · simp only [hindex, if_true, Except.map, Except.mapError, rename, List.length_map,
          Frame.rename, NameTable.insert_rename, id_eq]
      · simp only [hindex, if_false, Except.map, Except.mapError, rename, List.length_map,
          assignAt_rename]

theorem declare_rename (memory : Memory) (name : String) :
    (memory.rename r).declare (r name) = (memory.declare name).rename r := by
  simp only [declare, rename, Frame.rename, NameTable.insert_rename, id_eq]

theorem beginNested_rename (memory : Memory) :
    (memory.rename r).beginNested = memory.beginNested.rename r := by
  rw [beginNested, beginNested, rename, rename, List.length_map]
  rfl

theorem beginFunction_rename (memory : Memory) :
    (memory.rename r).beginFunction = memory.beginFunction.rename r := rfl

theorem endScope_rename (memory : Memory) :
    (memory.rename r).endScope = memory.endScope.rename r := by
  obtain ⟨top, _ | ⟨frame, below⟩⟩ := memory <;> rfl

end Memory

end TinyScript
