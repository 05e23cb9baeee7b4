import TinyScript.Program.Render
import TinyScript.Run.Session

/-!
# Console

What a program that is run from the command line writes, and with which code it exits. A program
that is read from a file shows each statement before its output.
-/

namespace TinyScript.Console

/-- What a run leaves behind: the text on the standard output, the text on the error output and the
exit code. -/
structure Transcript where
  output : String := ""
  diagnostics : String := ""
  code : Nat := 0
deriving DecidableEq, Repr

/-- The report of an error that ends a run. -/
def diagnosis (error : ChannelError) : String :=
  "Error: " ++ (Error.channel error).message ++ "\n\nCaused by:\n    " ++ error.message ++ "\n"

/-- The report on a program file that is not there. -/
def missingFile : Transcript where
  diagnostics := "Error: No such file or directory (os error 2)\n"
  code := 1

/-- Where a run writes, piece by piece. -/
structure Terminal (m : Type → Type) where
  /-- Puts a text on the standard output. -/
  print : String → m Unit
  /-- Puts a text on the error output. -/
  report : String → m Unit

/-- Executes the statements of a stream one by one, each shown as soon as it is done, and gives the
exit code. -/
def runOn {m : Type → Type} [Monad m] (terminal : Terminal m) (echo : Bool) (bound : Nat)
    (context : Context) (stream : TokenStream) : m Nat :=
  match hnext : stream.hasNext with
  | (.error _, _) => do
    terminal.report (diagnosis .undecodable)
    return 1
  | (.ok false, _) => return 0
  | (.ok true, seen) =>
    match hparse : parseStatement seen with
    | (.error error, _) => do
      terminal.print (error.message ++ "\n")
      return 0
    | (.ok statement, rest) => do
      have : rest.size < stream.size :=
        Nat.lt_of_lt_of_le (ParseState.size_of_run hparse) (TokenStream.size_hasNext_le hnext)
      if echo then terminal.print (statement.render ++ "\n")
      let (outcome, after) := executeTopLevel bound statement context
      terminal.print (after.sink.textSince context.sink)
      match outcome with
      | .done _ => runOn terminal echo bound after rest
      | .failed error =>
        terminal.print (error.message ++ "\n")
        runOn terminal echo bound after rest
      | .unfinished => return 0
termination_by stream.size

/-- A terminal that keeps what is written. -/
def recorder : Terminal (StateM Transcript) where
  print text := modify fun transcript => { transcript with output := transcript.output ++ text }
  report text := modify fun transcript =>
    { transcript with diagnostics := transcript.diagnostics ++ text }

/-- Runs a program in a fresh context. -/
def run (echo : Bool) (bound : Nat) (stream : TokenStream) : Transcript :=
  let result := (runOn recorder echo bound {} stream).run {}
  { result.2 with code := result.1 }

end TinyScript.Console
