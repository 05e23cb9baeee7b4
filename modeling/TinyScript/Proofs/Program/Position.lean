import TinyScript.Proofs.Program.Diagnosis
import TinyScript.Proofs.Token.Loading

/-!
# Where a failed parse stops

A parse that finds a token wrong has taken all tokens before it, and mostly the wrong token as well.
The exception is a word that stands where a statement should begin and begins none: the parse looks
at it and leaves it (`ParseState.splits_step`). Behind such an error the word comes first again, so
that whoever goes on reading may get no further (`failed_parse_stops_at_wrong_token`).
-/

namespace TinyScript

/-! ## Which wrong tokens are taken -/

variable {goal : Goal}

mutual

/-- There is no statement around an expression that is parsed by itself. -/
theorem StatementPlace.ne_expression {goal : Goal} : StatementPlace goal → goal ≠ .expression
  | .whole => nofun
  | .member place _ => BlockPlace.ne_expression place

theorem BlockPlace.ne_expression {goal : Goal} : BlockPlace goal → goal ≠ .expression
  | .whole => nofun
  | .statement place => StatementPlace.ne_expression place
  | .thenBranch place _ => StatementPlace.ne_expression place
  | .elseBranch place _ _ => StatementPlace.ne_expression place
  | .whileBody place _ => StatementPlace.ne_expression place
  | .repeatBody place _ => StatementPlace.ne_expression place
  | .functionBody place _ _ => StatementPlace.ne_expression place

end

/-- If the token is found to be wrong, it is left where it begins no statement, and otherwise
taken. -/
def Progress.Splits : Progress goal → Prop
  | .more _ | .complete _ => True
  | .reject error => ∀ word, error ≠ .unknownStatement word
  | .refuse error => goal ≠ .expression ∧ ∃ word, error = .unknownStatement word

theorem StatementPlace.splits_fill (place : StatementPlace goal) (statement : Statement) :
    (place.fill statement).Splits := by
  cases place <;> trivial

theorem ExprPlace.splits_fill (place : ExprPlace goal) (expr : Expr) :
    (place.fill expr).Splits := by
  cases place with
  | assigned place target => exact place.splits_fill _
  | printed place => exact place.splits_fill _
  | returned place => exact place.splits_fill _
  | _ => trivial

theorem BlockPlace.splits_fill (place : BlockPlace goal) (block : Block) :
    (place.fill block).Splits := by
  cases place with
  | whole => trivial
  | thenBranch place condition => trivial
  | _ => exact StatementPlace.splits_fill _ _

theorem ExprPlace.splits_begin (place : ExprPlace goal) (token : Token) :
    (place.begin token).Splits := by
  unfold begin
  split
  · trivial
  · split
    · trivial
    · split
      · exact place.splits_fill _
      · exact nofun

theorem ExprPlace.splits_step (place : ExprPlace goal) (token : Token) :
    (place.step token).Splits := by
  cases place with
  | element place before =>
      rw [step]
      split
      · exact place.splits_fill _
      · exact splits_begin _ token
  | argument place operator before =>
      rw [step]
      split
      · exact place.splits_fill _
      · exact splits_begin _ token
  | _ => exact splits_begin _ token

theorem StatementPlace.splits_beginAssignment (place : StatementPlace goal) (target : Token) :
    (place.beginAssignment target).Splits := by
  unfold beginAssignment
  split
  · trivial
  · exact nofun

theorem StatementPlace.splits_begin (place : StatementPlace goal) (token : Token) :
    (place.begin token).Splits := by
  unfold begin
  split
  case h_8 =>
    split
    · exact place.splits_beginAssignment token
    · exact ⟨place.ne_expression, _, rfl⟩
  all_goals trivial

theorem StatementPlace.splits_step (place : StatementPlace goal) (token : Token) :
    (place.step token).Splits := by
  cases place with
  | whole => exact splits_begin _ token
  | member place before =>
      rw [step]
      split
      · exact place.splits_fill _
      · exact splits_begin _ token

theorem splits_expectWord (construct expected : String) (token : Token)
    (state : ParseState goal) : (expectWord construct expected token state).Splits := by
  unfold expectWord
  split
  · trivial
  · exact nofun

theorem splits_expectName (what : String) (token : Token) (state : ParseState goal) :
    (expectName what token state).Splits := by
  unfold expectName
  split
  · trivial
  · exact nofun

theorem ParseState.splits_step (state : ParseState goal) (token : Token) :
    (state.step token).Splits := by
  cases state with
  | expression place => exact place.splits_step token
  | statement place => exact place.splits_step token
  | operator place =>
      rw [step]
      split
      · trivial
      · exact nofun
  | brace place => exact splits_expectWord _ _ token _
  | elseWord place condition thenBlock => exact splits_expectWord _ _ token _
  | equalsSign place target => exact splits_expectWord _ _ token _
  | functionName place => exact splits_expectName _ token _
  | parameterList place name => exact splits_expectWord _ _ token _
  | parameter place name before =>
      rw [step]
      split
      · trivial
      · exact splits_expectName _ token _

/-! ## Failed parses -/

section

variable {state : ParseState goal} {stream rest : TokenStream} {error : SyntaxError}

/-- A parse that fails, and not for the end of the tokens, has taken some tokens and found fault
with the one behind them. -/
theorem ParseState.run_wrong (h : state.run stream = (.error (.parsing error), rest))
    (hend : error ≠ .unexpectedEnd) :
    ∃ before token last middle seen, (Progress.more state).Leads before (.more last) ∧
      stream.Takes before middle ∧ middle.lookahead = (.ok token, seen) ∧
      (last.step token = .reject error ∧ rest = seen.advance ∨
        last.step token = .refuse error ∧ rest = seen) := by
  fun_induction ParseState.run state stream with
  | case1 state stream cause seen hlook =>
      cases cause with
      | endOfInput =>
          cases h
          exact absurd rfl hend
      | undecodable => cases h
  | case2 state stream token seen hlook next hstep _ ih =>
      obtain ⟨before, other, last, middle, more, hleads, htakes, hrest⟩ := ih h
      exact ⟨token :: before, other, last, middle, more, .of_step hstep hleads,
        .cons (TokenStream.next_of_lookahead hlook) htakes, hrest⟩
  | case3 => cases h
  | case4 state stream token seen hlook cause hstep =>
      cases h
      exact ⟨[], token, state, stream, seen, .nil _, .nil _, hlook, .inl ⟨hstep, rfl⟩⟩
  | case5 state stream token seen hlook cause hstep =>
      cases h
      exact ⟨[], token, state, stream, _, .nil _, .nil _, hlook, .inr ⟨hstep, rfl⟩⟩

end

/-- The error complains of a word that begins no statement. -/
def SyntaxError.IsUnknownStatement (error : SyntaxError) : Prop :=
  ∃ word, error = unknownStatement word

/-- Where a stream stands behind a parse that failed with the error: how far it has come depends on
the first token with which the tokens are no start of a sentence any more. -/
structure Goal.StopsAt (goal : Goal) (stream : TokenStream) (error : SyntaxError)
    (rest : TokenStream) (before : List Token) (token : Token) : Prop where
  wrong : goal.IsWrong before token
  names : error.Names token
  /-- The tokens up to this one come first in the stream. -/
  found : ∃ more, stream.events = (before ++ [token]).map .token ++ more
  /-- The token has been taken like those before it, unless it was to begin a statement. -/
  taken_iff : stream.Consumes (before ++ [token]) rest ↔ ¬ error.IsUnknownStatement
  /-- A word that begins no statement is left, and comes next. -/
  left : error.IsUnknownStatement → stream.Consumes before rest ∧ rest.pending = some token
  /-- Less is left than before, unless it is the first word that begins no statement. -/
  progress_iff : rest.events.length < stream.events.length ↔
    before ≠ [] ∨ ¬ error.IsUnknownStatement

section

variable {stream rest : TokenStream} {error : SyntaxError}

theorem Goal.stopsAt_of_run (h : goal.start.run stream = (.error (.parsing error), rest))
    (hend : error ≠ .unexpectedEnd) :
    ∃ before token, goal.StopsAt stream error rest before token := by
  obtain ⟨before, token, last, middle, seen, hleads, htakes, hlook, hstop⟩ :=
    ParseState.run_wrong h hend
  have hbefore := htakes.consumes
  have hmiddle := TokenStream.events_of_lookahead hlook
  have hboth : stream.Consumes (before ++ [token]) seen.advance := hbefore.append hmiddle
  have hseen : stream.Consumes before seen := by
    rw [TokenStream.Consumes, TokenStream.events_lookahead hlook]
    exact hbefore
  have hfound : ∃ more, stream.events = (before ++ [token]).map .token ++ more := ⟨_, hboth⟩
  have hsplits := last.splits_step token
  rcases hstop with ⟨hstep, rfl⟩ | ⟨hstep, rfl⟩
  · have herror : (last.step token).error? = some error := by rw [hstep]; rfl
    rw [hstep] at hsplits
    have hother : ¬ error.IsUnknownStatement := by
      rintro ⟨word, hword⟩
      exact hsplits word hword
    refine ⟨before, token, ParseState.isWrong hleads herror, last.reports_step token error herror,
      hfound, iff_of_true hboth hother, fun hunknown => absurd hunknown hother, ?_⟩
    refine iff_of_true ?_ (.inr hother)
    rw [hboth.length_events, List.length_append, List.length_singleton]
    omega
  · have herror : (last.step token).error? = some error := by rw [hstep]; rfl
    rw [hstep] at hsplits
    have hunknown : error.IsUnknownStatement := hsplits.2
    have hpending := TokenStream.pending_of_lookahead hlook
    refine ⟨before, token, ParseState.isWrong hleads herror, last.reports_step token error herror,
      hfound, ?_, fun _ => ⟨hseen, hpending⟩, ?_⟩
    · refine iff_of_false (fun htaken => ?_) (not_not_intro hunknown)
      have hsame := htaken.unique hseen
      simp at hsame
    · rw [hseen.length_events]
      simp [hunknown, List.length_pos_iff]

/-- There are no statements in an expression, so the wrong token has always been taken. -/
theorem not_isUnknownStatement_of_expression
    (h : Goal.expression.start.run stream = (.error (.parsing error), rest))
    (hend : error ≠ .unexpectedEnd) : ¬ error.IsUnknownStatement := by
  obtain ⟨before, token, last, middle, seen, -, -, -, hstop⟩ := ParseState.run_wrong h hend
  have hsplits := last.splits_step token
  rcases hstop with ⟨hstep, -⟩ | ⟨hstep, -⟩
  · rw [hstep] at hsplits
    rintro ⟨word, hword⟩
    exact hsplits word hword
  · rw [hstep] at hsplits
    exact absurd rfl hsplits.1

/-- A parse that fails for a wrong token has taken the tokens up to this one. It has taken the wrong
token as well exactly if the error is not that it begins no statement. So it has, whatever the error
is, in a parse of an expression. -/
theorem failed_parse_stops_at_wrong_token (stream rest : TokenStream) (error : SyntaxError)
    (hend : error ≠ .unexpectedEnd) :
    (parseStatement stream = (.error (.parsing error), rest) →
        ∃ before token, Goal.statement.StopsAt stream error rest before token) ∧
      (parseBlock stream = (.error (.parsing error), rest) →
        ∃ before token, Goal.block.StopsAt stream error rest before token) ∧
      (parseExpression stream = (.error (.parsing error), rest) →
        ∃ before token, Goal.expression.StopsAt stream error rest before token ∧
          stream.Consumes (before ++ [token]) rest) := by
  refine ⟨fun h => Goal.stopsAt_of_run h hend, fun h => Goal.stopsAt_of_run h hend, fun h => ?_⟩
  obtain ⟨before, token, hstops⟩ := Goal.stopsAt_of_run h hend
  exact ⟨before, token, hstops,
    hstops.taken_iff.2 (not_isUnknownStatement_of_expression h hend)⟩

end

/-- A word that begins no statement comes first, and has not been taken behind the error. -/
theorem unknown_word_not_taken :
    (parseStatement (.ofText ") x")).1 = .error (.parsing (.unknownStatement ")")) ∧
      ∀ before token, ¬ (TokenStream.ofText ") x").Consumes (before ++ [token])
        (parseStatement (.ofText ") x")).2 := by
  refine ⟨by decide +kernel, fun before token htaken => ?_⟩
  have hevents : (TokenStream.ofText ") x").events =
      (parseStatement (.ofText ") x")).2.events := by decide +kernel
  have hnone : (TokenStream.ofText ") x").Consumes [] (parseStatement (.ofText ") x")).2 := hevents
  simpa using htaken.unique hnone

theorem misplaced_words_found :
    (∃ rest, parseExpression (.ofText "[1 print] 2") =
        (.error (.parsing (.unknownValue "print")), rest) ∧
      ∃ before token, Goal.expression.StopsAt (.ofText "[1 print] 2") (.unknownValue "print")
          rest before token ∧
        (TokenStream.ofText "[1 print] 2").Consumes (before ++ [token]) rest) ∧
    ∃ rest, parseBlock (.ofText "\x7b x = 1 ) y") =
        (.error (.parsing (.unknownStatement ")")), rest) ∧
      ∃ before token, Goal.block.StopsAt (.ofText "\x7b x = 1 ) y") (.unknownStatement ")")
        rest before token := by
  have hvalue : (parseExpression (.ofText "[1 print] 2")).1 =
      .error (.parsing (.unknownValue "print")) := by decide +kernel
  have hword : (parseBlock (.ofText "\x7b x = 1 ) y")).1 =
      .error (.parsing (.unknownStatement ")")) := by decide +kernel
  refine ⟨⟨_, Prod.ext hvalue rfl, ?_⟩, _, Prod.ext hword rfl, ?_⟩
  · exact (failed_parse_stops_at_wrong_token _ _ _ (by decide)).2.2 (Prod.ext hvalue rfl)
  · exact (failed_parse_stops_at_wrong_token _ _ _ (by decide)).2.1 (Prod.ext hword rfl)

end TinyScript
