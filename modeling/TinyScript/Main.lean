import TinyScript.Run.Console

/-!
# Command line

Runs the program in the file that the first argument names, or the program on the standard input.
-/

namespace TinyScript

/-- More rounds and nested calls than any run can get through. -/
def runBound : Nat := Nat.pow 2 62

/-- Reads a stream to its end. -/
partial def readAll (stream : IO.FS.Stream) (read : ByteArray) : IO ByteArray := do
  let bytes ← stream.read 65536
  if bytes.isEmpty then return read else readAll stream (read ++ bytes)

/-- The outputs of the process. -/
def terminal : Console.Terminal IO where
  print := IO.print
  report := IO.eprint

def runStream (echo : Bool) (stream : TokenStream) : IO UInt32 := do
  return .ofNat (← Console.runOn terminal echo runBound {} stream)

/-- Runs a program file, which is read as a whole. -/
def runFile (path : String) : IO UInt32 := do
  match ← (IO.FS.readBinFile path).toBaseIO with
  | .ok bytes => runStream true (.ofBytes bytes.toList)
  | .error _ =>
    terminal.report Console.missingFile.diagnostics
    return .ofNat Console.missingFile.code

end TinyScript

def main (arguments : List String) : IO UInt32 := do
  match arguments with
  | path :: _ => TinyScript.runFile path
  | [] =>
    let bytes ← TinyScript.readAll (← IO.getStdin) .empty
    TinyScript.runStream false (.ofBytes bytes.toList)
