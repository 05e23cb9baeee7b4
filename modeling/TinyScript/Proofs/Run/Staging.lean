import TinyScript.Run.Session
import TinyScript.Proofs.Program.Sequence

/-!
# Reading first and executing afterwards

A session executes each statement before it reads the next. What is read does not depend on what is
executed, so the results are the same where a text is read first, as far as it can be, and its
statements are executed afterwards. A text below another one then does what it does by itself in the
context that the first one leaves (`text_executed_in_stages`).
-/

namespace TinyScript

/-! ## Results one after the other -/

/-- Whether an execution ended within its bound, with or without an error. -/
def Outcome.isFinished {α : Type} : Outcome α → Bool
  | .done _ | .failed _ => true
  | .unfinished => false

/-- What executing returns: the outcomes in order, and the context that is left. -/
abbrev Results := List (Outcome Unit) × Context

namespace Results

/-- Whether everything ended within the bound. -/
def isFinished (results : Results) : Bool :=
  results.1.all Outcome.isFinished

/-- Goes on in the context that is left. Nothing comes behind what does not end. -/
def andThen (first : Results) (next : Context → Results) : Results :=
  if first.isFinished then (first.1 ++ (next first.2).1, (next first.2).2) else first

variable {first : Results} {next : Context → Results}

theorem andThen_of_finished (h : first.isFinished = true) :
    first.andThen next = (first.1 ++ (next first.2).1, (next first.2).2) :=
  if_pos h

theorem andThen_of_unfinished (h : first.isFinished = false) : first.andThen next = first :=
  if_neg (by simp [h])

theorem andThen_congr {other : Context → Results}
    (h : first.isFinished = true → next first.2 = other first.2) :
    first.andThen next = first.andThen other := by
  cases hfirst : first.isFinished with
  | false => rw [andThen_of_unfinished hfirst, andThen_of_unfinished hfirst]
  | true => rw [andThen_of_finished hfirst, andThen_of_finished hfirst, h hfirst]

theorem isFinished_append (outcomes others : List (Outcome Unit)) (context after : Context) :
    isFinished (outcomes ++ others, after) =
      (isFinished (outcomes, context) && isFinished (others, after)) :=
  List.all_append

theorem andThen_assoc (first : Results) (second third : Context → Results) :
    (first.andThen second).andThen third =
      first.andThen fun context => (second context).andThen third := by
  cases hfirst : first.isFinished with
  | false =>
      rw [andThen_of_unfinished hfirst, andThen_of_unfinished hfirst,
        andThen_of_unfinished hfirst]
  | true =>
      have hboth := isFinished_append first.1 (second first.2).1 first.2 (second first.2).2
      rw [show isFinished (first.1, first.2) = true from hfirst, Bool.true_and] at hboth
      rw [andThen_of_finished hfirst, andThen_of_finished hfirst]
      cases hsecond : (second first.2).isFinished with
      | false =>
          rw [andThen_of_unfinished hsecond, andThen_of_unfinished (hboth.trans hsecond)]
      | true =>
          rw [andThen_of_finished hsecond, andThen_of_finished (hboth.trans hsecond),
            List.append_assoc]

/-- An error that is reported without a statement. -/
def ofError (error : Option Error) (context : Context) : Results :=
  ((error.map .failed).toList, context)

theorem andThen_ofError_none (first : Results) : first.andThen (ofError none) = first := by
  cases hfirst : first.isFinished with
  | false => exact andThen_of_unfinished hfirst
  | true =>
      rw [andThen_of_finished hfirst, ofError, Option.map_none, Option.toList_none,
        List.append_nil]

/-- Reporting an error changes nothing. -/
theorem context_andThen_ofError (first : Results) (error : Option Error) :
    (first.andThen (ofError error)).2 = first.2 := by
  cases hfirst : first.isFinished with
  | false => rw [andThen_of_unfinished hfirst]
  | true => rw [andThen_of_finished hfirst, ofError]

/-- The results of rounds, up to the first that did not end. -/
def ofRounds (context : Context) : List Round → Results
  | [] => ([], context)
  | round :: rounds =>
    andThen ([round.outcome], round.context) fun context => ofRounds context rounds

end Results

/-- Executes statements in order, up to the first that does not end. -/
def executeStatements (bound : Nat) (statements : List Statement) (context : Context) : Results :=
  .ofRounds context (executeEach bound context statements)

/-- Reads a text as far as it can be read, then executes the statements that were read, and at last
reports the error that ended the reading if there was one. -/
def executeStaged (bound : Nat) (text : String) (context : Context) : Results :=
  let reading := parseStatements (.ofText text)
  (executeStatements bound reading.1 context).andThen (.ofError reading.2)

theorem executeStatements_cons (bound : Nat) (statement : Statement) (statements : List Statement)
    (context : Context) :
    executeStatements bound (statement :: statements) context =
      let round := Round.execute bound context statement
      Results.andThen ([round.outcome], round.context) (executeStatements bound statements) := rfl

theorem executeStatements_append (bound : Nat) (statements others : List Statement)
    (context : Context) :
    executeStatements bound (statements ++ others) context =
      (executeStatements bound statements context).andThen (executeStatements bound others) := by
  induction statements generalizing context with
  | nil => rfl
  | cons statement statements ih =>
      have htail : executeStatements bound (statements ++ others) = fun context =>
          (executeStatements bound statements context).andThen (executeStatements bound others) :=
        funext ih
      rw [List.cons_append, executeStatements_cons, executeStatements_cons, Results.andThen_assoc,
        htail]

/-! ## Sessions -/

namespace Session

/-- What a session returns that reads a stream. -/
def results (bound : Nat) (stream : TokenStream) (context : Context) : Results :=
  let (rounds, ending) := run bound context stream
  (rounds.map Round.outcome ++ (ending.error?.map .failed).toList,
    (rounds.getLast?.map Round.context).getD context)

variable {bound : Nat} {context : Context} {stream rest : TokenStream} {round : Round}
  {ending : Ending}

theorem run_of_ended (h : step bound context stream = .ended ending) :
    run bound context stream = ([], ending) := by
  rw [run]
  split
  · next hended =>
      rw [h] at hended
      cases hended
      rfl
  · next hexecuted => simp [h] at hexecuted

theorem results_of_ended (h : step bound context stream = .ended ending) :
    results bound stream context = .ofError ending.error? context := by
  rw [results, run_of_ended h]
  rfl

theorem run_of_executed (h : step bound context stream = .executed round rest) :
    run bound context stream =
      if round.outcome.isFinished then
        (round :: (run bound round.context rest).1, (run bound round.context rest).2)
      else ([round], .unfinished) := by
  rw [run]
  split
  · next hended => simp [h] at hended
  · next hexecuted =>
      rw [h] at hexecuted
      cases hexecuted
      -- The match on the outcome and the condition reduce together.
      obtain ⟨statement, outcome, printed, after⟩ := round
      cases outcome <;> rfl

/-- The context behind the last round is left, whether or not it is the first. -/
theorem context_of_last (round : Round) (rounds : List Round) (context : Context) :
    ((round :: rounds).getLast?.map Round.context).getD context =
      (rounds.getLast?.map Round.context).getD round.context := by
  cases hlast : rounds.getLast? <;> simp [List.getLast?_cons, hlast]

theorem results_of_executed (h : step bound context stream = .executed round rest) :
    results bound stream context =
      Results.andThen ([round.outcome], round.context) (results bound rest) := by
  have hfirst : Results.isFinished ([round.outcome], round.context) = round.outcome.isFinished :=
    Bool.and_true _
  cases houtcome : round.outcome.isFinished with
  | false =>
      rw [Results.andThen_of_unfinished (hfirst.trans houtcome), results, run_of_executed h,
        houtcome]
      rfl
  | true =>
      rw [Results.andThen_of_finished (hfirst.trans houtcome), results, run_of_executed h,
        houtcome]
      simp only [if_true, results, context_of_last, List.map_cons, List.cons_append,
        List.nil_append]

theorem parseStatements_of_ended (h : step bound context stream = .ended ending) :
    parseStatements stream = ([], ending.error?) := by
  rw [parseStatements_eq]
  rcases hnext : stream.hasNext with ⟨error | found, seen⟩
  · rw [step, hnext] at h
    cases h
    rw [TokenStream.error_of_hasNext hnext]
    rfl
  · cases found with
    | false =>
        rw [step, hnext] at h
        cases h
        rfl
    | true =>
        simp only [step, hnext] at h
        rcases hparse : parseStatement seen with ⟨error | statement, behind⟩
        · simp only [hparse] at h ⊢
          cases h
          rfl
        · simp [hparse] at h

theorem parseStatements_of_executed (h : step bound context stream = .executed round rest) :
    ∃ statement, round = .execute bound context statement ∧
      parseStatements stream =
        (statement :: (parseStatements rest).1, (parseStatements rest).2) := by
  rw [parseStatements_eq]
  rcases hnext : stream.hasNext with ⟨error | found, seen⟩
  · simp [step, hnext] at h
  · cases found with
    | false => simp [step, hnext] at h
    | true =>
        simp only [step, hnext] at h
        rcases hparse : parseStatement seen with ⟨error | statement, behind⟩
        · simp [hparse] at h
        · simp only [hparse] at h ⊢
          cases h
          exact ⟨statement, rfl, rfl⟩

/-- Executing each statement before the next is read comes to the same as reading all of them
first. -/
theorem results_eq (bound : Nat) (stream : TokenStream) (context : Context) :
    results bound stream context =
      (executeStatements bound (parseStatements stream).1 context).andThen
        (.ofError (parseStatements stream).2) := by
  rcases hstep : step bound context stream with ending | ⟨round, rest⟩
  · rw [results_of_ended hstep, parseStatements_of_ended hstep]
    rfl
  · have hsize := size_of_step hstep
    obtain ⟨statement, hround, hparse⟩ := parseStatements_of_executed hstep
    rw [results_of_executed hstep, hparse, executeStatements_cons, ← hround, Results.andThen_assoc]
    -- What comes behind the first statement is the same only in the context that it leaves.
    exact Results.andThen_congr fun _ => results_eq bound rest round.context
termination_by stream.size

end Session

section

variable {bound : Nat} {context : Context} {stream rest : TokenStream}

theorem executeStream_of_ended {ending : Ending}
    (h : Session.step bound context stream = .ended ending) :
    executeStream bound context stream = Results.ofError ending.error? context := by
  rw [executeStream]
  split
  · next hnext =>
      rw [Session.step, hnext] at h
      cases h
      rw [TokenStream.error_of_hasNext hnext]
      rfl
  · next hnext =>
      rw [Session.step, hnext] at h
      cases h
      rfl
  · next seen hnext =>
      simp only [Session.step, hnext] at h
      split
      · next hparse =>
          simp only [hparse] at h
          cases h
          rfl
      · next hparse => simp [hparse] at h

theorem executeStream_of_executed {round : Round}
    (h : Session.step bound context stream = .executed round rest) :
    executeStream bound context stream =
      Results.andThen ([round.outcome], round.context) fun after =>
        executeStream bound after rest := by
  rw [executeStream]
  split
  · next hnext => simp [Session.step, hnext] at h
  · next hnext => simp [Session.step, hnext] at h
  · next seen hnext =>
      simp only [Session.step, hnext] at h
      split
      · next hparse => simp [hparse] at h
      · next statement behind hparse =>
          simp only [hparse] at h
          cases h
          rcases hrun : executeTopLevel bound statement context with ⟨_ | _ | _, after⟩ <;>
            simp [Round.execute, hrun, Results.andThen, Results.isFinished, Outcome.isFinished]

/-- The loop over a stream has the rounds of a session, and returns their outcomes. -/
theorem executeStream_eq (bound : Nat) (context : Context) (stream : TokenStream) :
    executeStream bound context stream = Session.results bound stream context := by
  rcases hstep : Session.step bound context stream with ending | ⟨round, rest⟩
  · rw [executeStream_of_ended hstep, Session.results_of_ended hstep]
  · have hsize := Session.size_of_step hstep
    rw [executeStream_of_executed hstep, Session.results_of_executed hstep]
    exact Results.andThen_congr fun _ => executeStream_eq bound round.context rest
termination_by stream.size

end

theorem executeText_eq (bound : Nat) (text : String) (context : Context) :
    executeText bound text context = executeStaged bound text context :=
  (executeStream_eq bound context (.ofText text)).trans
    (Session.results_eq bound (.ofText text) context)

/-! ## Texts in stages -/

theorem context_of_executeStaged (bound : Nat) (text : String) (context : Context) :
    (executeStaged bound text context).2 =
      (executeStatements bound (parseStatements (.ofText text)).1 context).2 := by
  rw [executeStaged]
  exact Results.context_andThen_ofError _ _

theorem executeStaged_of_read {text : String} (h : (parseStatements (.ofText text)).2 = none)
    (bound : Nat) (context : Context) :
    executeStaged bound text context =
      executeStatements bound (parseStatements (.ofText text)).1 context := by
  rw [executeStaged, h, Results.andThen_ofError_none]

/-- A text below another is executed in the context that the other leaves, whatever that one did, if
the other could be read. -/
theorem executeStaged_below {above below : String}
    (h : (parseStatements (.ofText above)).2 = none) (bound : Nat) (context : Context) :
    executeStaged bound (above ++ "\n" ++ below) context =
      (executeStaged bound above context).andThen (executeStaged bound below) := by
  rw [executeStaged_of_read h, executeStaged, parseStatements_below h, executeStatements_append,
    Results.andThen_assoc]
  rfl

/-- A text is executed as if it had been read first. Its statements are as many as can be read, and
nothing is done for what cannot be read but to report it. Below a text that can be read to its end,
another text does what it does by itself in the context that the first one leaves. -/
theorem text_executed_in_stages :
    (∀ text : String,
      let (statements, error) := parseStatements (.ofText text)
      Statement.IsLongestReading statements (tokensOf text.toList) ∧
        (error = none ↔ Statement.tokensAll statements = tokensOf text.toList)) ∧
      (∀ (bound : Nat) (text : String) (context : Context),
        executeText bound text context = executeStaged bound text context ∧
          (executeText bound text context).2 =
            (executeStatements bound (parseStatements (.ofText text)).1 context).2) ∧
      ∀ (bound : Nat) (above below : String) (context : Context),
        (parseStatements (.ofText above)).2 = none →
          executeText bound (above ++ "\n" ++ below) context =
            Results.andThen (executeText bound above context) (executeText bound below) := by
  refine ⟨fun text => ?_, fun bound text context => ?_, fun bound above below context h => ?_⟩
  · have hlongest := parseStatements_isLongestReading (.ofText text)
    have herror := parseStatements_error_iff (.ofText text)
    rw [TokenStream.drain_ofText] at hlongest herror
    refine ⟨hlongest, herror.trans ?_⟩
    simp [eq_comm]
  · rw [executeText_eq]
    exact ⟨rfl, context_of_executeStaged bound text context⟩
  · have hbelow : executeText bound below = executeStaged bound below :=
      funext (executeText_eq bound below)
    rw [executeText_eq, executeText_eq, hbelow]
    exact executeStaged_below h bound context

/-- Three statements, of which the second fails. -/
def failingText : String := "x = 1 print(+ x true) x = 2"

/-- A statement, a second one that cannot be read, and a third. -/
def spoiltText : String := "print x print] x = 3"

theorem spoilt_text_executed_below_failure :
    (parseStatements (.ofText failingText)).2 = none ∧
      executeText 9 (failingText ++ "\n" ++ spoiltText) {} =
        Results.andThen (executeText 9 failingText {}) (executeText 9 spoiltText) ∧
      (executeText 9 (failingText ++ "\n" ++ spoiltText) {}).1.length = 5 ∧
      (executeText 9 (failingText ++ "\n" ++ spoiltText) {}).2.sink.text = "2\n" := by
  obtain ⟨-, -, hbelow⟩ := text_executed_in_stages
  have hread : (parseStatements (.ofText failingText)).2 = none := by decide +kernel
  exact ⟨hread, hbelow 9 failingText spoiltText {} hread, by decide +kernel, by decide +kernel⟩

end TinyScript
