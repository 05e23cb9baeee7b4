import TinyScript.Program.Parser
import TinyScript.Run.Evaluate

/-!
# Sessions

A session reads a program statement by statement and executes each statement before it reads the
next. A statement that fails does not end the session, but one that cannot be read does.
-/

namespace TinyScript

/-- What became of one statement. -/
structure Round where
  statement : Statement
  outcome : Outcome Unit
  /-- What the statement printed, also if it failed. -/
  printed : String
  /-- The context behind it. -/
  context : Context

namespace Round

def execute (bound : Nat) (context : Context) (statement : Statement) : Round :=
  let (outcome, after) := executeTopLevel bound statement context
  ⟨statement, outcome, after.sink.textSince context.sink, after⟩

end Round

/-- How a session ends. -/
inductive Ending where
  | finished
  /-- A line between two statements could not be decoded. -/
  | unreadable
  /-- A statement could not be read to its end. -/
  | refused (error : Error)
  /-- The bound was too small for the last statement. -/
  | unfinished

/-- The error that an ending reports. -/
def Ending.error? : Ending → Option Error
  | .unreadable => some (.channel .undecodable)
  | .refused error => some error
  | .finished | .unfinished => none

/-- One step of a session: it ends, or a statement is executed. -/
inductive SessionStep where
  | ended (ending : Ending)
  | executed (round : Round) (rest : TokenStream)

namespace Session

/-- Reads and executes one statement. -/
def step (bound : Nat) (context : Context) (stream : TokenStream) : SessionStep :=
  match stream.hasNext with
  | (.error _, _) => .ended .unreadable
  | (.ok false, _) => .ended .finished
  | (.ok true, stream) =>
    match parseStatement stream with
    | (.error error, _) => .ended (.refused error)
    | (.ok statement, rest) => .executed (.execute bound context statement) rest

theorem size_of_step {bound : Nat} {context : Context} {stream rest : TokenStream}
    {round : Round} (h : step bound context stream = .executed round rest) :
    rest.size < stream.size := by
  unfold step at h
  split at h
  · cases h
  · cases h
  · next hnext =>
      split at h
      · cases h
      · next hparse =>
          cases h
          exact Nat.lt_of_lt_of_le (ParseState.size_of_run hparse)
            (TokenStream.size_hasNext_le hnext)

/-- The rounds of a session, and how it ends. -/
def run (bound : Nat) (context : Context) (stream : TokenStream) : List Round × Ending :=
  match h : step bound context stream with
  | .ended ending => ([], ending)
  | .executed round rest =>
    match round.outcome with
    | .unfinished => ([round], .unfinished)
    | _ =>
      have := size_of_step h
      let (rounds, ending) := run bound round.context rest
      (round :: rounds, ending)
termination_by stream.size

end Session

/-- Executes what can be read of a stream. The results are those of its statements in order, and at
last the error that ended the reading if there was one. -/
def executeStream (bound : Nat) (context : Context) (stream : TokenStream) :
    List (Outcome Unit) × Context :=
  match hnext : stream.hasNext with
  | (.error error, _) => ([.failed error.toError], context)
  | (.ok false, _) => ([], context)
  | (.ok true, seen) =>
    match hparse : parseStatement seen with
    | (.error error, _) => ([.failed error], context)
    | (.ok statement, rest) =>
      have : rest.size < stream.size :=
        Nat.lt_of_lt_of_le (ParseState.size_of_run hparse) (TokenStream.size_hasNext_le hnext)
      let (outcome, after) := executeTopLevel bound statement context
      match outcome with
      | .unfinished => ([.unfinished], after)
      | outcome =>
        let (outcomes, last) := executeStream bound after rest
        (outcome :: outcomes, last)
termination_by stream.size

/-- Executes a program text in a context. -/
def executeText (bound : Nat) (text : String) (context : Context) :
    List (Outcome Unit) × Context :=
  executeStream bound context (.ofText text)

/-- Executes statements one after the other in a context, also behind one that fails. -/
def executeEach (bound : Nat) (context : Context) : List Statement → List Round
  | [] => []
  | statement :: statements =>
    let round := Round.execute bound context statement
    round :: executeEach bound round.context statements

end TinyScript
