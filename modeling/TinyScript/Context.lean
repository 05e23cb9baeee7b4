import TinyScript.Memory
import TinyScript.Program.Tree

/-!
# Contexts

Everything that a running program can touch: its variables, its functions and the sink it prints to.
-/

namespace TinyScript

/-- Declared functions by name. They are never scoped. -/
abbrev FunctionTable := NameTable FunctionDecl

def FunctionTable.register (functions : FunctionTable) (decl : FunctionDecl) : FunctionTable :=
  functions.insert decl.name.spelling decl

/-- Where printed text goes. Whether a sink takes another piece depends on what it has received. -/
structure Sink where
  accepts : List String → Bool
  /-- The pieces received, the latest first. -/
  written : List String := []

namespace Sink

/-- A sink that takes everything. -/
def unlimited : Sink where
  accepts _ := true

/-- A sink that takes nothing more when it has received this many line feeds. -/
def upToLines (limit : Nat) : Sink where
  accepts written := (written.flatMap String.toList).count '\n' < limit

def write? (sink : Sink) (piece : String) : Option Sink :=
  if sink.accepts sink.written then some { sink with written := piece :: sink.written } else none

def text (sink : Sink) : String :=
  String.join sink.written.reverse

/-- What a sink has received beyond what it had received at an earlier time. -/
def textSince (sink earlier : Sink) : String :=
  String.join (sink.written.take (sink.written.length - earlier.written.length)).reverse

end Sink

structure Context where
  memory : Memory := {}
  functions : FunctionTable := ∅
  sink : Sink := .unlimited

end TinyScript
