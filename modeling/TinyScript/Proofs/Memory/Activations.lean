import Mathlib.Data.Finmap
import TinyScript.Proofs.Memory.Steps

/-!
# Memory as a stack of calls

Frames refer to each other by index. What they stand for is simpler: the calls that are running, the
latest first, and for each call its scopes, the innermost first. There are no parents in this
picture, since a lookup goes through the scopes of the latest call and stops there. Asked the same
things in the same order, a memory and such a stack of calls give the same replies, and the parents
in the memory never lead astray (`memory_is_stack_of_activations`).
-/

namespace TinyScript

/-! ## Activations -/

/-- The names that are declared in a scope, each with its value as soon as it has one. -/
abbrev Scope := Finmap fun _ : String => Option Value

/-- The scopes of one call, or those outside all calls. There is always an innermost one. -/
structure Activation where
  inner : Scope := ∅
  outer : List Scope := []

namespace Activation

def scopes (activation : Activation) : List Scope :=
  activation.inner :: activation.outer

/-- The binding in the innermost scope that declares the name. -/
def binding? (activation : Activation) (name : String) : Option (Option Value) :=
  activation.scopes.findSome? fun scope => scope.lookup name

/-- The scopes with the value under the name in the first scope that declares it. -/
def assignIn (name : String) (value : Value) : List Scope → List Scope
  | [] => []
  | scope :: outer =>
    if name ∈ scope then scope.insert name (some value) :: outer
    else scope :: assignIn name value outer

def assign (activation : Activation) (name : String) (value : Value) : Activation :=
  if name ∈ activation.inner then
    { activation with inner := activation.inner.insert name (some value) }
  else { activation with outer := assignIn name value activation.outer }

theorem scopes_assign (activation : Activation) (name : String) (value : Value) :
    (activation.assign name value).scopes = assignIn name value activation.scopes := by
  rw [assign, scopes, scopes, assignIn]
  split <;> rfl

end Activation

/-- The latest call, and below it the calls that wait for it. At the bottom is what stands outside
all calls. -/
structure Activations where
  current : Activation := {}
  callers : List Activation := []

namespace Activations

/-- The number of scopes of all calls. -/
def depth (stack : Activations) : Nat :=
  ((stack.current :: stack.callers).flatMap Activation.scopes).length

def beginNested (stack : Activations) : Activations :=
  { stack with current := ⟨∅, stack.current.scopes⟩ }

def beginFunction (stack : Activations) : Activations where
  callers := stack.current :: stack.callers

/-- Leaves the innermost scope, and the call with its last one. The last scope of all stays. -/
def endScope (stack : Activations) : Activations :=
  match stack.current.outer, stack.callers with
  | scope :: outer, _ => { stack with current := ⟨scope, outer⟩ }
  | [], caller :: callers => ⟨caller, callers⟩
  | [], [] => stack

def declare (stack : Activations) (name : String) : Activations :=
  { stack with current.inner := stack.current.inner.insert name none }

def isDeclared (stack : Activations) (name : String) : Bool :=
  (stack.current.binding? name).isSome

def lookup (stack : Activations) (name : String) : Except RuntimeError Value :=
  match stack.current.binding? name with
  | none => .error (.undeclaredVariable name)
  | some none => .error (.unassignedVariable name)
  | some (some value) => .ok value

def store (stack : Activations) (name : String) (value : Value) :
    Except RuntimeError Activations :=
  if stack.isDeclared name then .ok { stack with current := stack.current.assign name value }
  else .error (.undeclaredVariable name)

end Activations

/-! ## Requests -/

/-- What a memory may be asked. -/
inductive MemoryRequest where
  | beginNested | beginFunction | endScope
  | declare (name : String)
  | store (name : String) (value : Value)
  | lookup (name : String)
  | isDeclared (name : String)
  | depth

inductive MemoryReply where
  | nothing
  | stored (result : Except RuntimeError Unit)
  | value (result : Except RuntimeError Value)
  | answer (declared : Bool)
  | number (scopes : Nat)

/-- The reply to a store, and the state behind it. A store that fails changes nothing. -/
def MemoryReply.ofStore {State : Type} (before : State) :
    Except RuntimeError State → MemoryReply × State
  | .ok after => (.stored (.ok ()), after)
  | .error error => (.stored (.error error), before)

namespace MemoryRequest

def askMemory : MemoryRequest → Memory → MemoryReply × Memory
  | beginNested, memory => (.nothing, memory.beginNested)
  | beginFunction, memory => (.nothing, memory.beginFunction)
  | endScope, memory => (.nothing, memory.endScope)
  | declare name, memory => (.nothing, memory.declare name)
  | store name value, memory => MemoryReply.ofStore memory (memory.store name value)
  | lookup name, memory => (.value (memory.lookup name), memory)
  | isDeclared name, memory => (.answer (memory.isDeclared name), memory)
  | depth, memory => (.number memory.depth, memory)

def askStack : MemoryRequest → Activations → MemoryReply × Activations
  | beginNested, stack => (.nothing, stack.beginNested)
  | beginFunction, stack => (.nothing, stack.beginFunction)
  | endScope, stack => (.nothing, stack.endScope)
  | declare name, stack => (.nothing, stack.declare name)
  | store name value, stack => MemoryReply.ofStore stack (stack.store name value)
  | lookup name, stack => (.value (stack.lookup name), stack)
  | isDeclared name, stack => (.answer (stack.isDeclared name), stack)
  | depth, stack => (.number stack.depth, stack)

/-- Asks one request after the other. -/
def askAll {State : Type} (ask : MemoryRequest → State → MemoryReply × State) :
    List MemoryRequest → State → List MemoryReply × State
  | [], state => ([], state)
  | request :: requests, state =>
    let (reply, state) := ask request state
    let (replies, state) := askAll ask requests state
    (reply :: replies, state)

end MemoryRequest

/-! ## What frames stand for -/

/-- The frame binds what the scope binds. -/
def Frame.Shows (frame : Frame) (scope : Scope) : Prop :=
  ∀ name, frame.bindings.find? name = scope.lookup name

namespace Frame.Shows

variable {frame : Frame} {scope : Scope}

theorem contains_iff (h : frame.Shows scope) (name : String) :
    frame.bindings.contains name = true ↔ name ∈ scope := by
  rw [NameTable.contains, h name, Finmap.lookup_isSome]

theorem insert (h : frame.Shows scope) (name : String) (binding : Option Value) :
    Shows { frame with bindings := frame.bindings.insert name binding }
      (scope.insert name binding) := by
  intro other
  rw [NameTable.find?_insert]
  split
  · next hother => rw [hother, Finmap.lookup_insert]
  · next hother => rw [Finmap.lookup_insert_of_ne _ hother, h other]

theorem empty (parent : Option Nat) : Shows { parent } ∅ := by
  intro name
  rw [Finmap.lookup_empty]
  rfl

end Frame.Shows

/-- The frames of a memory are the scopes of the calls. The first scope of each call has no parent,
and the parent of every other scope is the one below it. -/
inductive Memory.Represents : Memory → Activations → Prop where
  | bottom {frame : Frame} {scope : Scope} (hparent : frame.parent = none)
      (hscope : frame.Shows scope) : Represents ⟨frame, []⟩ ⟨⟨scope, []⟩, []⟩
  | call {frame : Frame} {scope : Scope} {rest : Memory} {stack : Activations}
      (hparent : frame.parent = none) (hscope : frame.Shows scope)
      (hrest : Represents rest stack) :
      Represents ⟨frame, rest.frames⟩ ⟨⟨scope, []⟩, stack.current :: stack.callers⟩
  | block {frame : Frame} {scope : Scope} {rest : Memory} {stack : Activations}
      (hparent : frame.parent = some rest.below.length) (hscope : frame.Shows scope)
      (hrest : Represents rest stack) :
      Represents ⟨frame, rest.frames⟩ ⟨⟨scope, stack.current.scopes⟩, stack.callers⟩

namespace Memory.Represents

variable {memory after : Memory} {stack : Activations} {name : String} {value : Value}

theorem fresh : Represents {} {} :=
  .bottom rfl (.empty none)

theorem shows_top (h : memory.Represents stack) : memory.top.Shows stack.current.inner := by
  cases h <;> assumption

/-! ## Questions -/

theorem depth_eq (h : memory.Represents stack) : memory.depth = stack.depth := by
  induction h with
  | bottom => rfl
  | call _ _ _ ih | block _ _ _ ih =>
      simp only [Memory.depth, Memory.frames, Activations.depth, Activation.scopes,
        List.length_cons, List.length_nil, List.flatMap_cons, List.length_append] at ih ⊢
      omega

/-- The top frame is asked first, and what is below it decides only if it does not know the name. -/
theorem binding?_of_below {frame : Frame} {scope : Scope} {below : List Frame}
    {outer : List Scope} (hscope : frame.Shows scope)
    (hbelow : frame.bindings.contains name = false →
      Memory.binding? ⟨frame, below⟩ name = outer.findSome? fun scope => scope.lookup name) :
    Memory.binding? ⟨frame, below⟩ name = Activation.binding? ⟨scope, outer⟩ name := by
  rw [Activation.binding?, Activation.scopes, List.findSome?_cons, ← hscope name]
  cases hfind : frame.bindings.find? name with
  | none => exact hbelow (by rw [NameTable.contains, hfind, Option.isSome_none])
  | some binding =>
      have hcontains : frame.bindings.contains name = true := by
        rw [NameTable.contains, hfind, Option.isSome_some]
      exact (Memory.binding?_top hcontains).trans hfind

/-- A name is looked for in the scopes of the latest call, from the inside out. -/
theorem binding?_eq (h : memory.Represents stack) (name : String) :
    memory.binding? name = stack.current.binding? name := by
  induction h with
  | bottom hparent hscope =>
      exact binding?_of_below hscope fun hname => Memory.binding?_root hparent hname []
  | call hparent hscope _ _ =>
      exact binding?_of_below hscope fun hname => Memory.binding?_root hparent hname _
  | block hparent hscope _ ih =>
      exact binding?_of_below hscope fun hname => (Memory.binding?_nested hparent hname).trans ih

theorem isDeclared_eq (h : memory.Represents stack) (name : String) :
    memory.isDeclared name = stack.isDeclared name := by
  rw [← Memory.isSome_binding?, h.binding?_eq, Activations.isDeclared]

theorem lookup_eq (h : memory.Represents stack) (name : String) :
    memory.lookup name = stack.lookup name := by
  rw [Memory.lookup, Memory.visible, ← Memory.binding?, h.binding?_eq, Activations.lookup]
  rcases stack.current.binding? name with _ | _ | value <;> rfl

/-! ## Changes -/

theorem beginNested (h : memory.Represents stack) :
    memory.beginNested.Represents stack.beginNested :=
  .block rfl (.empty _) h

theorem beginFunction (h : memory.Represents stack) :
    memory.beginFunction.Represents stack.beginFunction :=
  .call rfl (.empty _) h

theorem endScope (h : memory.Represents stack) : memory.endScope.Represents stack.endScope := by
  cases h with
  | bottom hparent hscope => exact .bottom hparent hscope
  | call _ _ hrest => exact hrest
  | block _ _ hrest => exact hrest

theorem declare (h : memory.Represents stack) (name : String) :
    (memory.declare name).Represents (stack.declare name) := by
  cases h with
  | bottom hparent hscope => exact .bottom hparent (hscope.insert name none)
  | call hparent hscope hrest => exact .call hparent (hscope.insert name none) hrest
  | block hparent hscope hrest => exact .block hparent (hscope.insert name none) hrest

/-- A name of the innermost scope gets its value there. -/
theorem assign_inner (h : memory.Represents stack) (hname : name ∈ stack.current.inner)
    (hstore : memory.store name value = .ok after) :
    after.Represents { stack with current := stack.current.assign name value } := by
  have hcontains := (h.shows_top.contains_iff name).2 hname
  rw [Memory.store_top hcontains hstore, Activation.assign, if_pos hname]
  cases h with
  | bottom hparent hscope => exact .bottom hparent (hscope.insert name (some value))
  | call hparent hscope hrest => exact .call hparent (hscope.insert name (some value)) hrest
  | block hparent hscope hrest => exact .block hparent (hscope.insert name (some value)) hrest

/-- A value goes to the innermost scope of the latest call that declares the name. -/
theorem assign (h : memory.Represents stack) (hstore : memory.store name value = .ok after) :
    after.Represents { stack with current := stack.current.assign name value } := by
  induction h generalizing after with
  | @bottom frame scope hparent hscope =>
      have hname := Memory.contains_of_store_root hparent hstore
      exact assign_inner (.bottom hparent hscope) ((hscope.contains_iff name).1 hname) hstore
  | @call frame scope rest stack hparent hscope hrest _ =>
      have hname := Memory.contains_of_store_root hparent hstore
      exact assign_inner (.call hparent hscope hrest) ((hscope.contains_iff name).1 hname) hstore
  | @block frame scope rest stack hparent hscope hrest ih =>
      by_cases hname : name ∈ scope
      · exact assign_inner (.block hparent hscope hrest) hname hstore
      · have hcontains : frame.bindings.contains name = false := by
          rw [← Bool.not_eq_true, hscope.contains_iff]
          exact hname
        obtain ⟨last, hlast, rfl⟩ := Memory.store_nested hparent hcontains hstore
        have hlength := (Memory.updated_store hlast).length_eq
        simp only [Memory.frames, List.length_cons, Nat.add_right_cancel_iff] at hlength
        rw [hlength] at hparent
        have hblock := Represents.block hparent hscope (ih hlast)
        rw [Activation.scopes_assign] at hblock
        rw [Activation.assign, if_neg hname]
        exact hblock

/-! ## Requests -/

/-- One request gets the same reply, and leaves behind it what stands for the same. -/
theorem ask (h : memory.Represents stack) (request : MemoryRequest) :
    (request.askMemory memory).1 = (request.askStack stack).1 ∧
      (request.askMemory memory).2.Represents (request.askStack stack).2 := by
  cases request with
  | beginNested => exact ⟨rfl, h.beginNested⟩
  | beginFunction => exact ⟨rfl, h.beginFunction⟩
  | endScope => exact ⟨rfl, h.endScope⟩
  | declare name => exact ⟨rfl, h.declare name⟩
  | store name value =>
      have hdeclared := h.isDeclared_eq name
      rw [MemoryRequest.askMemory, MemoryRequest.askStack, Activations.store, ← hdeclared]
      split
      · next hname =>
          obtain ⟨after, hstore⟩ := Memory.exists_store hname value
          rw [hstore]
          exact ⟨rfl, h.assign hstore⟩
      · next hname =>
          rw [Memory.store_of_undeclared (Bool.eq_false_of_not_eq_true hname)]
          exact ⟨rfl, h⟩
  | lookup name => exact ⟨congrArg MemoryReply.value (h.lookup_eq name), h⟩
  | isDeclared name => exact ⟨congrArg MemoryReply.answer (h.isDeclared_eq name), h⟩
  | depth => exact ⟨congrArg MemoryReply.number h.depth_eq, h⟩

theorem askAll (h : memory.Represents stack) (requests : List MemoryRequest) :
    (MemoryRequest.askAll MemoryRequest.askMemory requests memory).1 =
        (MemoryRequest.askAll MemoryRequest.askStack requests stack).1 ∧
      (MemoryRequest.askAll MemoryRequest.askMemory requests memory).2.Represents
        (MemoryRequest.askAll MemoryRequest.askStack requests stack).2 := by
  induction requests generalizing memory stack with
  | nil => exact ⟨rfl, h⟩
  | cons request requests ih =>
      obtain ⟨hreply, hafter⟩ := h.ask request
      obtain ⟨hreplies, hlast⟩ := ih hafter
      exact ⟨congrArg₂ List.cons hreply hreplies, hlast⟩

end Memory.Represents

/-! ## The way along parents -/

namespace Memory

/-- The frame with the given index. -/
def frameAt (index : Nat) : List Frame → Option Frame
  | [] => none
  | frame :: below => if below.length = index then some frame else frameAt index below

/-- A search for a name, from a frame or from nowhere, with the index of the frame it finds. It has
come to its end, and all frames on its way are there. -/
inductive Searched (frames : List Frame) (name : String) : Option Nat → Option Nat → Prop where
  | nowhere : Searched frames name none none
  | found {index : Nat} {frame : Frame} (hframe : frameAt index frames = some frame)
      (hname : frame.bindings.contains name = true) : Searched frames name (some index) (some index)
  | further {index : Nat} {frame : Frame} {place : Option Nat}
      (hframe : frameAt index frames = some frame)
      (hname : frame.bindings.contains name = false)
      (hparent : Searched frames name frame.parent place) : Searched frames name (some index) place

/-- The parent of a frame is the frame below it, if it has one. -/
def Linked (frames : List Frame) : Prop :=
  ∀ index frame, frameAt index frames = some frame →
    frame.parent = none ∨ ∃ below, frame.parent = some below ∧ below + 1 = index

theorem Represents.linked {memory : Memory} {stack : Activations} (h : memory.Represents stack) :
    Linked memory.frames := by
  induction h with
  | bottom hparent _ =>
      intro index found hfound
      simp only [frames, frameAt, List.length_nil] at hfound
      split at hfound
      · cases hfound
        exact .inl hparent
      · cases hfound
  | call hparent _ _ ih =>
      intro index found hfound
      rw [frames, frameAt] at hfound
      split at hfound
      · cases hfound
        exact .inl hparent
      · exact ih index found hfound
  | block hparent _ _ ih =>
      intro index found hfound
      rw [frames, frameAt] at hfound
      split at hfound
      · next hindex =>
          cases hfound
          exact .inr ⟨_, hparent, hindex⟩
      · exact ih index found hfound

theorem exists_frameAt {frames : List Frame} {index : Nat} (h : index < frames.length) :
    ∃ frame, frameAt index frames = some frame := by
  induction frames with
  | nil => cases h
  | cons frame below ih =>
      rw [frameAt]
      split
      · exact ⟨frame, rfl⟩
      · next hindex =>
          rw [List.length_cons] at h
          exact ih (by omega)

theorem lt_of_frameAt {frames : List Frame} {index : Nat} {frame : Frame}
    (h : frameAt index frames = some frame) : index < frames.length := by
  induction frames with
  | nil => cases h
  | cons top below ih =>
      rw [frameAt] at h
      rw [List.length_cons]
      split at h
      · omega
      · exact Nat.lt_succ_of_lt (ih h)

/-- A lookup asks the frame that it has come to, and goes on from its parent. -/
theorem findFrom_of_frameAt {frames : List Frame} {index : Nat} {frame : Frame}
    (h : frameAt index frames = some frame)
    (hparent : ∀ parent, frame.parent = some parent → parent < index) (name : String) :
    findFrom name frames index =
      if frame.bindings.contains name then some index
      else frame.parent.bind fun parent => findFrom name frames parent := by
  induction frames with
  | nil => cases h
  | cons top below ih =>
      have hbelow : ∀ {parent}, parent < below.length →
          findFrom name (top :: below) parent = findFrom name below parent := by
        intro parent hlt
        rw [findFrom, if_neg (Nat.ne_of_gt hlt)]
      have hbind : index ≤ below.length →
          (frame.parent.bind fun parent => findFrom name (top :: below) parent) =
            frame.parent.bind fun parent => findFrom name below parent := by
        intro hle
        cases hframe : frame.parent with
        | none => rfl
        | some parent => exact hbelow (Nat.lt_of_lt_of_le (hparent parent hframe) hle)
      rw [frameAt] at h
      split at h
      · next hindex =>
          cases h
          rw [hbind (Nat.le_of_eq hindex.symm), findFrom, if_pos hindex]
      · have hlt := lt_of_frameAt h
        rw [hbind (Nat.le_of_lt hlt), hbelow hlt, ih h]

theorem Linked.searched {frames : List Frame} (h : Linked frames) (name : String) {index : Nat}
    (hindex : index < frames.length) :
    Searched frames name (some index) (findFrom name frames index) := by
  induction index using Nat.strong_induction_on with
  | h index ih =>
      obtain ⟨frame, hframe⟩ := exists_frameAt hindex
      have hlinked := h index frame hframe
      have hparent : ∀ parent, frame.parent = some parent → parent < index := by
        intro parent hsome
        rcases hlinked with hnone | ⟨below, hbelow, hindex⟩
        · cases hnone.symm.trans hsome
        · cases hbelow.symm.trans hsome
          omega
      rw [findFrom_of_frameAt hframe hparent]
      rcases hname : frame.bindings.contains name with _ | _
      · refine .further hframe hname ?_
        cases hsome : frame.parent with
        | none => exact .nowhere
        | some parent =>
            have hlt := hparent parent hsome
            exact ih parent hlt (Nat.lt_trans hlt hindex)
      · exact .found hframe hname

end Memory

/-- Whatever a fresh memory is asked and in which order, it replies as a stack of calls would. In
every memory that comes up the parent of a frame is the frame below it, if there is a parent, so the
search for a name, from the top frame along parents, comes to its end and leaves the frames
nowhere. -/
theorem memory_is_stack_of_activations (requests : List MemoryRequest) :
    let memory := MemoryRequest.askAll MemoryRequest.askMemory requests {}
    let stack := MemoryRequest.askAll MemoryRequest.askStack requests {}
    memory.1 = stack.1 ∧
      (∀ index frame, Memory.frameAt index memory.2.frames = some frame →
        frame.parent = none ∨ ∃ below, frame.parent = some below ∧ below + 1 = index) ∧
      (∀ frame, Memory.frameAt 0 memory.2.frames = some frame → frame.parent = none) ∧
      ∀ name, Memory.Searched memory.2.frames name (some memory.2.below.length)
        (memory.2.find? name) := by
  intro memory stack
  obtain ⟨hreplies, hafter⟩ := Memory.Represents.fresh.askAll requests
  have hlinked := hafter.linked
  refine ⟨hreplies, hlinked, ?_, ?_⟩
  · intro frame hframe
    exact (hlinked 0 frame hframe).resolve_right fun ⟨_, _, hbelow⟩ => Nat.succ_ne_zero _ hbelow
  · intro name
    exact hlinked.searched name (Nat.lt_succ_self _)

end TinyScript
