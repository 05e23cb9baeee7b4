import TinyScript.Error
import TinyScript.NameTable

/-!
# Memory

Variables live in a stack of frames, and the index of a frame is the number of frames below it. A
lookup starts at the top frame and follows parents, so what it sees is the block it is in, the
blocks around that one, and at last the function they belong to. The frame of a function has no
parent: nothing outside the call is visible.
-/

namespace TinyScript

structure Frame where
  /-- A name without a value has been declared and not been assigned. -/
  bindings : NameTable (Option Value) := ∅
  /-- The index of the frame in which a lookup goes on. -/
  parent : Option Nat := none

/-- There is always a top frame. The frames below it are listed from the top down. -/
structure Memory where
  top : Frame := {}
  below : List Frame := []

/-- What a name denotes where it is used. -/
inductive Visible where
  | undeclared
  | unassigned
  | bound (value : Value)

namespace Memory

/-- The number of frames. -/
def depth (memory : Memory) : Nat :=
  memory.below.length + 1

def frames (memory : Memory) : List Frame :=
  memory.top :: memory.below

/-! ## Scopes -/

/-- Enters a block, from which what was visible stays visible. -/
def beginNested (memory : Memory) : Memory where
  top := { parent := some memory.below.length }
  below := memory.frames

/-- Enters a function, from which nothing is visible. -/
def beginFunction (memory : Memory) : Memory where
  top := {}
  below := memory.frames

/-- Leaves the innermost scope. The bottom frame is never removed. -/
def endScope (memory : Memory) : Memory :=
  match memory.below with
  | [] => memory
  | top :: below => ⟨top, below⟩

/-! ## Lookup -/

/-- The index of the first frame that declares the name, on the way from the frame with the given
index along parents. -/
def findFrom (name : String) : List Frame → Nat → Option Nat
  | [], _ => none
  | frame :: below, index =>
    if below.length = index then
      if frame.bindings.contains name then some index
      else frame.parent.bind fun parent => findFrom name below parent
    else findFrom name below index

/-- The index of the frame in which the name is visible. -/
def find? (memory : Memory) (name : String) : Option Nat :=
  findFrom name memory.frames memory.below.length

def isDeclared (memory : Memory) (name : String) : Bool :=
  (memory.find? name).isSome

/-- The binding of a name in the frame with the given index. -/
def bindingAt (name : String) (index : Nat) : List Frame → Option (Option Value)
  | [] => none
  | frame :: below =>
    if below.length = index then frame.bindings.find? name else bindingAt name index below

def visible (memory : Memory) (name : String) : Visible :=
  match (memory.find? name).bind fun index => bindingAt name index memory.frames with
  | none => .undeclared
  | some none => .unassigned
  | some (some value) => .bound value

def lookup (memory : Memory) (name : String) : Except RuntimeError Value :=
  match memory.visible name with
  | .undeclared => .error (.undeclaredVariable name)
  | .unassigned => .error (.unassignedVariable name)
  | .bound value => .ok value

/-! ## Update -/

/-- Declares the name in the top frame. A value it had there is lost. -/
def declare (memory : Memory) (name : String) : Memory :=
  { memory with top := { memory.top with bindings := memory.top.bindings.insert name none } }

/-- The frames with the value under the name in the frame with the given index. -/
def assignAt (name : String) (value : Value) (index : Nat) : List Frame → List Frame
  | [] => []
  | frame :: below =>
    if below.length = index then
      { frame with bindings := frame.bindings.insert name (some value) } :: below
    else frame :: assignAt name value index below

/-- Gives the visible variable of that name a value. -/
def store (memory : Memory) (name : String) (value : Value) : Except RuntimeError Memory :=
  match memory.find? name with
  | none => .error (.undeclaredVariable name)
  | some index =>
    if index = memory.below.length then
      .ok { memory with
        top := { memory.top with bindings := memory.top.bindings.insert name (some value) } }
    else .ok { memory with below := assignAt name value index memory.below }

end Memory

end TinyScript
