import Mathlib.Data.List.Forall2
import TinyScript.Memory

/-!
# How frames change

A store changes one binding of a name that was declared before (`Frame.Updated`), and a declaration
adds a name (`Frame.Extended`). Both are relations that assignments respect (`Frame.Follows`), so
that they can be followed through any sequence of steps.
-/

namespace TinyScript.Frame

/-- The frame declares the same names as before, and those that had a value still have one. -/
structure Updated (before after : Frame) : Prop where
  parent : after.parent = before.parent
  declares : ∀ name, after.bindings.contains name = before.bindings.contains name
  keeps : ∀ name value, before.bindings.find? name = some (some value) →
    ∃ other, after.bindings.find? name = some (some other)

theorem Updated.refl (frame : Frame) : frame.Updated frame where
  parent := rfl
  declares _ := rfl
  keeps _ value h := ⟨value, h⟩

theorem Updated.trans {first second third : Frame} (h : first.Updated second)
    (hnext : second.Updated third) : first.Updated third where
  parent := hnext.parent.trans h.parent
  declares name := (hnext.declares name).trans (h.declares name)
  keeps name value hvalue := by
    obtain ⟨other, hother⟩ := h.keeps name value hvalue
    exact hnext.keeps name other hother

def assign (frame : Frame) (name : String) (value : Value) : Frame :=
  { frame with bindings := frame.bindings.insert name (some value) }

theorem updated_assign {frame : Frame} {name : String}
    (h : frame.bindings.contains name = true) (value : Value) :
    frame.Updated (frame.assign name value) where
  parent := rfl
  declares other := by
    by_cases hother : other = name
    · simp [assign, hother, h]
    · simp [assign, hother]
  keeps other old hold := by
    by_cases hother : other = name
    · exact ⟨value, by simp [assign, hother]⟩
    · exact ⟨old, by simpa [assign, hother] using hold⟩

def declare (frame : Frame) (name : String) : Frame :=
  { frame with bindings := frame.bindings.insert name none }

/-- The frame declares what it declared before and at most the names introduced, and names that had
a value still have one. -/
structure Extended (introduced : String → Prop) (before after : Frame) : Prop where
  parent : after.parent = before.parent
  declares : ∀ name, before.bindings.contains name = true → after.bindings.contains name = true
  introduces : ∀ name, after.bindings.contains name = true →
    before.bindings.contains name = true ∨ introduced name
  keeps : ∀ name value, before.bindings.find? name = some (some value) →
    ∃ other, after.bindings.find? name = some (some other)

theorem Updated.extended {introduced : String → Prop} {before after : Frame}
    (h : before.Updated after) : before.Extended introduced after where
  parent := h.parent
  declares name hname := (h.declares name).trans hname
  introduces name hname := .inl ((h.declares name).symm.trans hname)
  keeps := h.keeps

theorem extended_declare {introduced : String → Prop} {frame : Frame} {name : String}
    (hname : introduced name) (hnew : frame.bindings.contains name = false) :
    frame.Extended introduced (frame.declare name) where
  parent := rfl
  declares other hother := by simp [declare, hother]
  introduces other hother := by
    rw [declare, NameTable.contains_insert, Bool.or_eq_true, decide_eq_true_eq] at hother
    rcases hother with rfl | hold
    · exact .inr hname
    · exact .inl hold
  keeps other value hvalue := by
    have hother : other ≠ name := by
      rintro rfl
      simp [NameTable.contains, hvalue] at hnew
    exact ⟨value, by simpa [declare, hother] using hvalue⟩

/-- A relation between the states of a frame that every assignment of an allowed name respects. -/
structure Follows (stored : String → Prop) (Rel : Frame → Frame → Prop) : Prop where
  refl (frame : Frame) : Rel frame frame
  trans {first second third : Frame} :
    Rel first second → Rel second third → Rel first third
  assign (frame : Frame) (name : String) (value : Value) : stored name →
    frame.bindings.contains name = true → Rel frame (frame.assign name value)

theorem Follows.refl_all {stored : String → Prop} {Rel : Frame → Frame → Prop}
    (h : Follows stored Rel) (frames : List Frame) : List.Forall₂ Rel frames frames :=
  List.forall₂_same.2 fun frame _ => h.refl frame

theorem Follows.trans_all {stored : String → Prop} {Rel : Frame → Frame → Prop}
    (h : Follows stored Rel) {first second third : List Frame}
    (hfirst : List.Forall₂ Rel first second) (hsecond : List.Forall₂ Rel second third) :
    List.Forall₂ Rel first third := by
  induction hfirst generalizing third with
  | nil => exact hsecond
  | cons hframe _ ih =>
      cases hsecond with
      | cons hnext htail => exact .cons (h.trans hframe hnext) (ih htail)

theorem follows_updated (stored : String → Prop) : Follows stored Updated where
  refl := .refl
  trans := .trans
  assign _ _ value _ hcontains := updated_assign hcontains value

theorem follows_extended (stored introduced : String → Prop) :
    Follows stored (Extended introduced) where
  refl frame := (Updated.refl frame).extended
  assign _ _ value _ hcontains := (updated_assign hcontains value).extended
  trans {first second third} h hnext := {
    parent := hnext.parent.trans h.parent
    declares := fun name hname => hnext.declares name (h.declares name hname)
    introduces := fun name hname => by
      rcases hnext.introduces name hname with hmiddle | hnew
      · exact h.introduces name hmiddle
      · exact .inr hnew
    keeps := fun name value hvalue => by
      obtain ⟨other, hother⟩ := h.keeps name value hvalue
      exact hnext.keeps name other hother }

end TinyScript.Frame
