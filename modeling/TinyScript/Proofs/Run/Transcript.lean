import Mathlib
import TinyScript.Main
import TinyScript.Proofs.Program.Diagnosis
import TinyScript.Proofs.Run.Scopes
import TinyScript.Proofs.Run.Staging
import TinyScript.Proofs.Token.Cursor

/-!
# What a run from the command line writes

A run from the command line executes each statement before it reads the next, and writes what became
of the one before it looks for the other. The text comes to the same as if the statements had been
read first and then executed in one context (`Session.run_closes`). What stands behind the last of
them decides how the text closes (`Console.Closes`), and if all lines can be decoded it closes like
the results of the whole text do (`console_shows_results`).
-/

namespace TinyScript

/-! ## Tokens up to a line that cannot be decoded -/

/-- The tokens before the first line that cannot be decoded, and the error if there is such a line. -/
def Event.readable : List Event → List Token × Option StreamError
  | .token first :: events => (first :: (readable events).1, (readable events).2)
  | .unreadable :: _ => ([], some .undecodable)
  | [] => ([], none)

theorem Event.readable_error (events : List Event) :
    (readable events).2 = none ∨ (readable events).2 = some .undecodable := by
  induction events with
  | nil => exact .inl rfl
  | cons event events ih =>
      cases event with
      | token first => exact ih
      | unreadable => exact .inr rfl

namespace TokenStream

variable {stream seen : TokenStream}

/-- What is drained from a stream is what can be read of its events. -/
theorem drain_eq_readable (stream : TokenStream) :
    stream.drain = Event.readable stream.events := by
  have hshows := stream.shows_lookahead
  generalize hlook : stream.lookahead = shown at hshows
  generalize stream.events = events at hshows
  cases hshows with
  | token hpending hrest =>
      have hlt := size_advance_lt hlook
      rw [drain_of_next (next_of_lookahead hlook), drain_eq_readable, hrest]
      rfl
  | unreadable => exact drain_of_lookahead_error hlook
  | finished => exact drain_of_lookahead_error hlook
termination_by stream.size

theorem drain_of_hasNext_error {error : StreamError}
    (h : stream.hasNext = (.error error, seen)) : stream.drain = ([], some .undecodable) := by
  unfold hasNext at h
  split at h
  · cases h
  · cases h
  · next cause _ hne hlook =>
      cases cause with
      | endOfInput => exact (hne rfl).elim
      | undecodable => exact drain_of_lookahead_error hlook

theorem drain_ne_nil_of_hasNext (h : stream.hasNext = (.ok true, seen)) : stream.drain.1 ≠ [] := by
  unfold hasNext at h
  split at h
  · next hlook =>
      rw [drain_of_next (next_of_lookahead hlook)]
      exact List.cons_ne_nil _ _
  · cases h
  · cases h

end TokenStream

/-! ## How a run closes -/

namespace Console

/-- How the text of a run closes behind the statements that were executed. It depends on the tokens
behind them, on whether the last of these tokens stands before a line that cannot be decoded, and on
the error that ended the reading. -/
inductive Closes : List Token → Option StreamError → Option Error → Transcript → Prop where
  | finished : Closes [] none none {}
  /-- A line between two statements cannot be decoded. -/
  | between : Closes [] (some .undecodable) (some (.channel .undecodable)) {
      diagnostics := "Error: I/O error: stream did not contain valid UTF-8\n\nCaused by:\n    " ++
        "stream did not contain valid UTF-8\n"
      code := 1 }
  /-- A statement goes on in a line that cannot be decoded. -/
  | within {more : List Token} (hne : more ≠ []) (hmore : Goal.statement.NeedsMore more) :
      Closes more (some .undecodable) (some (.channel .undecodable))
        { output := "I/O error: stream did not contain valid UTF-8\n" }
  /-- There is no more of a statement. -/
  | cut {more : List Token} (hne : more ≠ []) (hmore : Goal.statement.NeedsMore more) :
      Closes more none (some (.parsing .unexpectedEnd))
        { output := "SYNTAX ERROR: Unexpected end of input\n" }
  /-- A statement goes wrong, whether or not a line behind it cannot be decoded. -/
  | wrong {before behind : List Token} {token : Token} {broken : Option StreamError}
      {error : SyntaxError} (hwrong : Goal.statement.IsWrong before token)
      (hnames : error.Names token) :
      Closes (before ++ token :: behind) broken (some (.parsing error))
        { output := "SYNTAX ERROR: " ++ error.message ++ "\n" }

/-- What the end of a session adds to the texts before it, and the exit code. -/
def showEnding : Ending → Transcript
  | .finished | .unfinished => {}
  | .unreadable => { diagnostics := diagnosis .undecodable, code := 1 }
  | .refused error => { output := error.message ++ "\n" }

theorem Closes.code_eq {more : List Token} {error : Option Error} {last : Transcript}
    (h : Closes more none error last) : last.code = 0 := by
  cases h <;> rfl

/-- A statement that cannot be read is reported on the standard output. -/
theorem closes_of_refused {stream rest : TokenStream} {error : Error}
    (hne : stream.drain.1 ≠ []) (h : parseStatement stream = (.error error, rest)) :
    Closes stream.drain.1 stream.drain.2 (some error) (showEnding (.refused error)) := by
  have hrun : (Goal.statement.start.run stream).1 = .error error := congrArg Prod.fst h
  have hdrain : stream.drain = (stream.drain.1, stream.drain.2) := rfl
  rcases Goal.statement.start.run_cases hdrain with ⟨tree, hok⟩ | ⟨hend, last, hleads⟩ |
    ⟨before, token, after, last, cause, htokens, hleads, herror, hwrong⟩
  · simp [hrun] at hok
  · have hmore := ParseState.needsMore hleads
    rw [hrun] at hend
    rcases Event.readable_error stream.events with hnone | hbroken
    · rw [← TokenStream.drain_eq_readable] at hnone
      rw [hnone] at hend ⊢
      cases hend
      exact .cut hne hmore
    · rw [← TokenStream.drain_eq_readable] at hbroken
      rw [hbroken] at hend ⊢
      cases hend
      exact .within hne hmore
  · rw [hrun] at hwrong
    cases hwrong
    rw [htokens]
    exact .wrong (ParseState.isWrong hleads herror) (last.reports_step token cause herror)

end Console

/-! ## Sessions -/

namespace Round

/-- Whether the statement ended within the bound. -/
def isFinished (round : Round) : Bool :=
  round.outcome.isFinished

/-- The rounds up to the first whose statement did not end, which is the last that there is. -/
def upToUnfinished : List Round → List Round
  | [] => []
  | round :: rounds => round :: if round.isFinished then upToUnfinished rounds else []

end Round

namespace Session

variable {bound : Nat} {context : Context} {stream rest : TokenStream} {round : Round}
  {ending : Ending}

theorem closes_of_ended (h : step bound context stream = .ended ending) :
    Console.Closes stream.drain.1 stream.drain.2 ending.error? (Console.showEnding ending) := by
  unfold step at h
  split at h
  · next hnext =>
      cases h
      rw [TokenStream.drain_of_hasNext_error hnext]
      exact .between
  · next hnext =>
      cases h
      rw [TokenStream.drain_of_hasNext_false hnext]
      exact .finished
  · next seen hnext =>
      split at h
      · next hparse =>
          cases h
          have hne := TokenStream.drain_ne_nil_of_hasNext hnext
          rw [← TokenStream.drain_of_hasNext_true hnext] at hne ⊢
          exact Console.closes_of_refused hne hparse
      · cases h

/-- A statement that is executed has been taken from the tokens of the stream. -/
theorem drain_of_executed (h : step bound context stream = .executed round rest) :
    stream.drain = (round.statement.tokens ++ rest.drain.1, rest.drain.2) := by
  unfold step at h
  split at h
  · cases h
  · cases h
  · next seen hnext =>
      split at h
      · cases h
      · next statement last hparse =>
          cases h
          rw [← TokenStream.drain_of_hasNext_true hnext]
          exact (Goal.statement.readBy_run.sound hparse).2.drain_eq

/-- The rounds of a session are those of the statements that can be read, executed one after the
other in one context. If all of them end, the session ends as the tokens behind them demand. -/
theorem run_closes (bound : Nat) (context : Context) (stream : TokenStream) :
    ∃ more ending, stream.drain.1 = Statement.tokensAll (parseStatements stream).1 ++ more ∧
      Console.Closes more stream.drain.2 (parseStatements stream).2 (Console.showEnding ending) ∧
      run bound context stream =
        (Round.upToUnfinished (executeEach bound context (parseStatements stream).1),
          if (executeEach bound context (parseStatements stream).1).all Round.isFinished then ending
          else .unfinished) := by
  rcases hstep : step bound context stream with ending | ⟨round, rest⟩
  · rw [parseStatements_of_ended hstep]
    exact ⟨_, ending, rfl, closes_of_ended hstep, run_of_ended hstep⟩
  · have hsize := size_of_step hstep
    obtain ⟨more, ending, hmore, hcloses, hrun⟩ := run_closes bound round.context rest
    obtain ⟨statement, rfl, hparse⟩ := parseStatements_of_executed hstep
    rw [hparse, drain_of_executed hstep]
    refine ⟨more, ending, ?_, hcloses, ?_⟩
    · rw [hmore, Statement.tokensAll, List.append_assoc]
      rfl
    · rw [run_of_executed hstep, hrun, executeEach]
      cases hfinished : (Round.execute bound context statement).outcome.isFinished with
      | true => simp [Round.upToUnfinished, Round.isFinished, hfinished]
      | false => simp [Round.upToUnfinished, Round.isFinished, hfinished]
termination_by stream.size

end Session

/-! ## What the sink receives -/

theorem Sink.text_of_suffix {earlier sink : Sink} (h : earlier.written <:+ sink.written) :
    sink.text = earlier.text ++ sink.textSince earlier := by
  obtain ⟨pieces, hpieces⟩ := h
  have hlength : sink.written.length - earlier.written.length = pieces.length := by
    rw [← hpieces, List.length_append]
    omega
  have hsince : sink.textSince earlier = String.join pieces.reverse := by
    rw [textSince, hlength, ← hpieces, List.take_left]
  calc sink.text = String.join (pieces ++ earlier.written).reverse := by rw [text, hpieces]
    _ = earlier.text ++ String.join pieces.reverse := by
        rw [List.reverse_append, String.join_append, text]
    _ = earlier.text ++ sink.textSince earlier := by rw [hsince]

theorem Round.text_execute (bound : Nat) (context : Context) (statement : Statement) :
    (Round.execute bound context statement).context.sink.text =
      context.sink.text ++ (Round.execute bound context statement).printed := by
  have hprinted := ((changes bound).2 statement context).printed
  rw [← executeTopLevel_context] at hprinted
  exact Sink.text_of_suffix hprinted

/-- The sink has received what the statements printed, one after the other. -/
theorem text_executeEach (bound : Nat) (context : Context) (statements : List Statement) :
    (((Round.upToUnfinished (executeEach bound context statements)).getLast?.map
        Round.context).getD context).sink.text =
      context.sink.text ++ String.join
        ((Round.upToUnfinished (executeEach bound context statements)).map Round.printed) := by
  induction statements generalizing context with
  | nil => simp [executeEach, Round.upToUnfinished]
  | cons statement statements ih =>
      have hround := Round.text_execute bound context statement
      rw [executeEach, Round.upToUnfinished, Session.context_of_last, List.map_cons,
        String.join_cons, ← String.append_assoc, ← hround]
      cases (Round.execute bound context statement).isFinished with
      | true => exact ih _
      | false => simp

/-! ## The console -/

namespace Console

/-- What is shown of a statement before it is executed. -/
def echoed (echo : Bool) (statement : Statement) : String :=
  if echo then statement.render ++ "\n" else ""

/-- What is shown of a failure. -/
def failureText : Outcome Unit → String
  | .failed error => error.message ++ "\n"
  | .done _ | .unfinished => ""

/-- The text that one statement puts on the standard output. -/
def showRound (echo : Bool) (round : Round) : String :=
  echoed echo round.statement ++ round.printed ++ failureText round.outcome

/-- Texts, each with the outcome behind it. The outcomes may be more than the texts. -/
def interleave : List String → List (Outcome Unit) → String
  | text :: texts, outcome :: outcomes => text ++ failureText outcome ++ interleave texts outcomes
  | [], outcome :: outcomes => failureText outcome ++ interleave [] outcomes
  | _, [] => ""

/-! ## What a terminal is told -/

section

variable {m : Type → Type} [Monad m] (terminal : Terminal m)

/-- Shows a statement, what it printed and its failure. -/
def Terminal.showRound (echo : Bool) (round : Round) : m Unit := do
  if echo then terminal.print (round.statement.render ++ "\n")
  terminal.print round.printed
  match round.outcome with
  | .failed error => terminal.print (error.message ++ "\n")
  | .done _ | .unfinished => return

/-- Shows statements one after the other. -/
def Terminal.showRounds (echo : Bool) : List Round → m Unit
  | [] => return
  | round :: rounds => do
    terminal.showRound echo round
    showRounds echo rounds

/-- Shows why a run has ended, and gives its exit code. -/
def Terminal.close : Ending → m Nat
  | .finished | .unfinished => return 0
  | .unreadable => do
    terminal.report (diagnosis .undecodable)
    return 1
  | .refused error => do
    terminal.print (error.message ++ "\n")
    return 0

variable {bound : Nat} {context : Context} {stream rest : TokenStream}

theorem runOn_of_ended (echo : Bool) {ending : Ending}
    (h : Session.step bound context stream = .ended ending) :
    runOn terminal echo bound context stream = terminal.close ending := by
  rw [runOn]
  split
  · next hnext =>
      rw [Session.step, hnext] at h
      cases h
      rfl
  · next hnext =>
      rw [Session.step, hnext] at h
      cases h
      rfl
  · next seen hnext =>
      simp only [Session.step, hnext] at h
      split
      · next hparse =>
          simp only [hparse] at h
          cases h
          rfl
      · next hparse => simp [hparse] at h

theorem runOn_of_executed [LawfulMonad m] (echo : Bool) {round : Round}
    (h : Session.step bound context stream = .executed round rest) :
    runOn terminal echo bound context stream = (do
      terminal.showRound echo round
      if round.outcome.isFinished then runOn terminal echo bound round.context rest
      else terminal.close .unfinished) := by
  rw [runOn]
  split
  · next hnext => simp [Session.step, hnext] at h
  · next hnext => simp [Session.step, hnext] at h
  · next seen hnext =>
      simp only [Session.step, hnext] at h
      split
      · next hparse => simp [hparse] at h
      · next statement behind hparse =>
          simp only [hparse] at h
          cases h
          rcases hrun : executeTopLevel bound statement context with ⟨_ | _ | _, after⟩ <;>
            cases echo <;>
              simp [Round.execute, hrun, Terminal.showRound, Terminal.close, Outcome.isFinished]

/-- Whatever it writes to, a run shows the rounds of a session one after the other, and then why it
has ended. -/
theorem runOn_eq [LawfulMonad m] (echo : Bool) (bound : Nat) (context : Context)
    (stream : TokenStream) :
    runOn terminal echo bound context stream = (do
      terminal.showRounds echo (Session.run bound context stream).1
      terminal.close (Session.run bound context stream).2) := by
  rcases hstep : Session.step bound context stream with ending | ⟨round, rest⟩
  · rw [runOn_of_ended terminal echo hstep, Session.run_of_ended hstep, Terminal.showRounds,
      pure_bind]
  · have hsize := Session.size_of_step hstep
    rw [runOn_of_executed terminal echo hstep, Session.run_of_executed hstep,
      runOn_eq echo bound round.context rest]
    cases round.outcome.isFinished <;> simp [Terminal.showRounds]
termination_by stream.size

end

theorem run_showRound_recorder (echo : Bool) (round : Round) (transcript : Transcript) :
    (recorder.showRound echo round).run transcript =
      ((), { transcript with output := transcript.output ++ showRound echo round }) := by
  obtain ⟨statement, outcome, printed, context⟩ := round
  cases echo <;> cases outcome <;>
    simp [Terminal.showRound, recorder, showRound, echoed, failureText, String.append_assoc] <;> rfl

theorem run_showRounds_recorder (echo : Bool) (rounds : List Round) (transcript : Transcript) :
    (recorder.showRounds echo rounds).run transcript =
      ((), { transcript with
        output := transcript.output ++ String.join (rounds.map (showRound echo)) }) := by
  induction rounds generalizing transcript with
  | nil =>
      rw [List.map_nil, String.join_nil, String.append_empty]
      rfl
  | cons round rounds ih =>
      rw [Terminal.showRounds, StateT.run_bind, run_showRound_recorder, List.map_cons,
        String.join_cons, ← String.append_assoc]
      exact ih _

theorem run_close_recorder (ending : Ending) (transcript : Transcript) :
    (recorder.close ending).run transcript =
      ((showEnding ending).code, { transcript with
        output := transcript.output ++ (showEnding ending).output
        diagnostics := transcript.diagnostics ++ (showEnding ending).diagnostics }) := by
  cases ending <;> simp [Terminal.close, recorder, showEnding] <;> rfl

/-- The transcript with more text before it on the standard output. -/
def Transcript.behind (text : String) (transcript : Transcript) : Transcript :=
  { transcript with output := text ++ transcript.output }

theorem interleave_outcomes (texts : Round → String) (rounds : List Round)
    (outcomes : List (Outcome Unit)) :
    interleave (rounds.map texts) (rounds.map Round.outcome ++ outcomes) =
      String.join (rounds.map fun round => texts round ++ failureText round.outcome) ++
        interleave [] outcomes := by
  induction rounds with
  | nil => simp
  | cons round rounds ih =>
      simp only [List.map_cons, List.cons_append, interleave, ih, String.join_cons,
        String.append_assoc]

/-- An ending is shown like its result, unless a line between two statements cannot be decoded. -/
theorem showEnding_eq {ending : Ending} (h : (showEnding ending).code = 0) :
    showEnding ending = { output := interleave [] (ending.error?.map .failed).toList } := by
  cases ending with
  | finished | unfinished => rfl
  | unreadable => cases h
  | refused error =>
      simp [showEnding, Ending.error?, interleave, failureText]

theorem run_eq (echo : Bool) (bound : Nat) (stream : TokenStream) :
    run echo bound stream =
      (showEnding (Session.run bound {} stream).2).behind
        (String.join ((Session.run bound {} stream).1.map (showRound echo))) := by
  have hclose := run_close_recorder (Session.run bound {} stream).2
    { output := "" ++ String.join ((Session.run bound {} stream).1.map (showRound echo)) }
  have hrun := run_showRounds_recorder echo (Session.run bound {} stream).1 {}
  rw [run, runOn_eq, StateT.run_bind, hrun]
  refine (congrArg (fun result => { result.2 with code := result.1 }) hclose).trans ?_
  simp [Transcript.behind]

end Console

/-- On the outputs of the process the same is shown, each round before the next is read. -/
theorem runStream_eq (echo : Bool) (stream : TokenStream) :
    runStream echo stream = (do
      terminal.showRounds echo (Session.run runBound {} stream).1
      let code ← terminal.close (Session.run runBound {} stream).2
      return .ofNat code) := by
  rw [runStream, Console.runOn_eq, bind_assoc]

/-- What a run writes for bytes is, statement by statement, what is shown of the statements that can
be read before the first line that cannot be decoded, executed in one context, and then how that
closes. For the bytes of a text it is the outputs of the statements with the results of the text
between them, and nothing is diagnosed. -/
theorem console_shows_results :
    (∀ (echo : Bool) (bound : Nat) (bytes : List UInt8),
      let (tokens, broken) := Event.readable (Event.ofBytes bytes)
      let (statements, error) := parseStatements (.ofBytes bytes)
      let rounds := executeEach bound {} statements
      Statement.IsLongestReading statements tokens ∧
        ∃ more last, tokens = Statement.tokensAll statements ++ more ∧
          Console.Closes more broken error last ∧
          Console.run echo bound (.ofBytes bytes) =
            (if rounds.all Round.isFinished then last else {}).behind
              (String.join ((Round.upToUnfinished rounds).map fun round =>
                Console.echoed echo round.statement ++ round.printed ++
                  Console.failureText round.outcome))) ∧
      ∀ (echo : Bool) (bound : Nat) (text : String),
        let (outcomes, context) := executeText bound text {}
        let rounds := Round.upToUnfinished
          (executeEach bound {} (parseStatements (.ofText text)).1)
        rounds.map Round.outcome <+: outcomes ∧
          context.sink.text = String.join (rounds.map Round.printed) ∧
          Console.run echo bound (.ofBytes text.toUTF8.data.toList) =
            { output := Console.interleave
                (rounds.map fun round => Console.echoed echo round.statement ++ round.printed)
                outcomes } := by
  constructor
  · intro echo bound bytes
    have hlongest := parseStatements_isLongestReading (.ofBytes bytes)
    obtain ⟨more, ending, hmore, hcloses, hrun⟩ := Session.run_closes bound {} (.ofBytes bytes)
    have hdrain := TokenStream.drain_eq_readable (.ofBytes bytes)
    rw [TokenStream.events_ofBytes] at hdrain
    rw [hdrain] at hlongest hmore hcloses
    refine ⟨hlongest, more, Console.showEnding ending, hmore, hcloses, ?_⟩
    rw [Console.run_eq, hrun]
    split <;> rfl
  · intro echo bound text
    obtain ⟨more, ending, -, hcloses, hrun⟩ := Session.run_closes bound {} (.ofText text)
    rw [TokenStream.drain_ofText] at hcloses
    generalize hending : (if (executeEach bound {} (parseStatements (.ofText text)).1).all
      Round.isFinished then ending else .unfinished) = final at hrun
    have hcode : (Console.showEnding final).code = 0 := by
      rw [← hending]
      split
      · exact hcloses.code_eq
      · rfl
    have hresults : executeText bound text {} = Session.results bound (.ofText text) {} :=
      executeStream_eq bound {} (.ofText text)
    rw [hresults, Session.results, TokenStream.ofBytes_toUTF8, Console.run_eq, hrun]
    refine ⟨List.prefix_append _ _, ?_, ?_⟩
    · rw [text_executeEach]
      exact String.empty_append
    · rw [Console.showEnding_eq hcode, Console.interleave_outcomes]
      rfl

end TinyScript
