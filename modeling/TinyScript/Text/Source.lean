import TinyScript.Text.Lines

/-!
# Sources

A program is read line by line. Each line is decoded by itself, so bytes that are no UTF-8 spoil
the line they stand in and no other.
-/

namespace TinyScript

/-- A line of a source, with its line feed if it has one. -/
inductive Line where
  | text (chars : List Char)
  /-- The bytes of the line are not valid UTF-8. -/
  | undecodable
deriving DecidableEq

/-- A bound on the tokens of a line, with one to spare for the line itself. -/
def Line.size : Line → Nat
  | .text chars => chars.length + 1
  | .undecodable => 1

/-- The lines of a program that are still to be read. -/
abbrev Source := List Line

namespace Source

def ofText (text : String) : Source :=
  (Text.splitLines (· == '\n') text.toList).map .text

/-- Decodes the bytes of one line. -/
def decodeLine (bytes : List UInt8) : Line :=
  match String.fromUTF8? ⟨bytes.toArray⟩ with
  | some text => .text text.toList
  | none => .undecodable

def ofBytes (bytes : List UInt8) : Source :=
  (Text.splitLines (· == 0x0A) bytes).map decodeLine

/-- A bound on the tokens of all lines. -/
def size : Source → Nat
  | [] => 0
  | line :: source => line.size + size source

@[simp] theorem size_nil : size [] = 0 := rfl

@[simp] theorem size_cons (line : Line) (source : Source) :
    size (line :: source) = line.size + size source := rfl

end Source

end TinyScript
