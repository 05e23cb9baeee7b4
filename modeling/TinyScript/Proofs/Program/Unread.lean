import TinyScript.Proofs.Program.RoundTrip
import TinyScript.Proofs.Text.Lines
import TinyScript.Proofs.Token.Loading

/-!
# What a parse leaves unread

A parse takes the sentence of its tree and looks at no token behind it, and the stream loads no line
before a token of it is asked for. So behind a parse that succeeds no token is pending, and the last
line that it has loaded is the one on which the sentence ends. Whatever bytes stand behind that line,
the tree is the same (`parse_leaves_rest_unread`).
-/

namespace TinyScript

open TokenStream

/-! ## Calls of a stream -/

/-- What a stream is used for: it is asked for a token, or a tree is parsed from it. -/
inductive Call where
  | ask (request : Request)
  | parse (goal : Goal)

/-- What a call returns. -/
abbrev Call.Result : Call → Type
  | ask _ => Reply
  | parse goal => Except Error goal.Tree

def Call.run : (call : Call) → TokenStream → call.Result × TokenStream
  | ask request => request.askStream
  | parse goal => goal.start.run

/-- The stream behind the calls, whether they have failed or not. -/
def Call.runAll (calls : List Call) (stream : TokenStream) : TokenStream :=
  calls.foldl (fun stream call => (call.run stream).2) stream

variable {goal : Goal} {stream rest : TokenStream}

theorem ParseState.run_ended (state : ParseState goal) :
    state.run ended = (.error (.parsing .unexpectedEnd), ended) := by
  rw [run_eq, lookahead_ended]
  rfl

/-- A parse that does not come to the end depends on no lines but those it loads. -/
theorem ParseState.run_loads (state : ParseState goal) (stream : TokenStream) :
    state.run stream = (.error (.parsing .unexpectedEnd), ended) ∨
      ∃ loaded result rest, Reads state.run stream loaded result rest := by
  fun_induction ParseState.run state stream with
  | case1 state stream error seen hlook =>
      rcases stream.lookahead_cases with hend | ⟨loaded, _, _, hreads, -⟩
      · obtain ⟨herror, rfl⟩ := Prod.mk.inj (hlook.symm.trans hend)
        cases herror
        exact .inl rfl
      · obtain ⟨rfl, rfl⟩ := Prod.mk.inj (hlook.symm.trans hreads.eq)
        refine .inr ⟨loaded, .error error.toError, seen, hreads.unread, fun others => ?_⟩
        rw [run_eq, hreads.any_behind others]
  | case2 state stream token seen hlook next hstep _ ih =>
      rcases ih with hend | ⟨more, result, rest, hmore⟩
      · exact .inl hend
      · obtain ⟨loaded, hreads, -⟩ := reads_of_lookahead hlook
        refine .inr ⟨loaded ++ more, result, rest, ?_, fun others => ?_⟩
        · rw [hreads.unread, ← unread_advance, hmore.unread, List.append_assoc]
        · rw [run_eq, List.append_assoc, hreads.any_behind (more ++ others)]
          simpa only [hstep, advance_withUnread] using hmore.any_behind others
  | case3 state stream token seen hlook tree hstep =>
      obtain ⟨loaded, hreads, -⟩ := reads_of_lookahead hlook
      refine .inr ⟨loaded, .ok tree, seen.advance, hreads.unread, fun others => ?_⟩
      rw [run_eq, hreads.any_behind others]
      simp only [hstep, advance_withUnread]
  | case4 state stream token seen hlook error hstep =>
      obtain ⟨loaded, hreads, -⟩ := reads_of_lookahead hlook
      refine .inr ⟨loaded, .error (.parsing error), seen.advance, hreads.unread, fun others => ?_⟩
      rw [run_eq, hreads.any_behind others]
      simp only [hstep, advance_withUnread]
  | case5 state stream token seen hlook error hstep =>
      obtain ⟨loaded, hreads, -⟩ := reads_of_lookahead hlook
      refine .inr ⟨loaded, .error (.parsing error), seen, hreads.unread, fun others => ?_⟩
      rw [run_eq, hreads.any_behind others]
      simp only [hstep]

/-! ## Many calls -/

theorem Call.runAll_cons (call : Call) (calls : List Call) (stream : TokenStream) :
    runAll (call :: calls) stream = runAll calls (call.run stream).2 := rfl

theorem Call.run_cases (call : Call) (stream : TokenStream) :
    (call.run stream).2 = ended ∨
      ∃ loaded result rest, Reads call.run stream loaded result rest := by
  cases call with
  | ask request => exact askStream_cases request stream
  | parse goal => exact (goal.start.run_loads stream).imp_left (congrArg Prod.snd)

theorem Call.run_ended (call : Call) : (call.run ended).2 = ended := by
  cases call with
  | ask request => cases request <;> rfl
  | parse goal => exact congrArg Prod.snd goal.start.run_ended

theorem Call.runAll_ended (calls : List Call) : runAll calls ended = ended := by
  induction calls with
  | nil => rfl
  | cons call calls ih => rw [runAll_cons, run_ended, ih]

/-- Calls that do not come to the end depend on no lines but those they load. -/
theorem Call.runAll_cases (calls : List Call) (stream : TokenStream) :
    runAll calls stream = ended ∨
      ∃ loaded, stream.unread = loaded ++ (runAll calls stream).unread ∧
        ∀ others, runAll calls (stream.withUnread (loaded ++ others)) =
          (runAll calls stream).withUnread others := by
  induction calls generalizing stream with
  | nil => exact .inr ⟨[], rfl, fun _ => rfl⟩
  | cons call calls ih =>
      rcases call.run_cases stream with hend | ⟨loaded, result, rest, hreads⟩
      · left
        rw [runAll_cons, hend, runAll_ended]
      · rw [runAll_cons, hreads.eq]
        rcases ih rest with hend | ⟨more, hunread, hbehind⟩
        · exact .inl hend
        · refine .inr ⟨loaded ++ more, ?_, fun others => ?_⟩
          · rw [hreads.unread, hunread, List.append_assoc]
          · rw [runAll_cons, List.append_assoc, hreads.any_behind, hbehind]

/-! ## Parses that succeed -/

theorem EndsLine.append {bytes more behind : List UInt8} (h : EndsLine bytes (more ++ behind))
    (hmore : EndsLine more behind) : EndsLine (bytes ++ more) behind := by
  rcases hmore with hnil | hmore
  · exact .inl hnil
  · rcases h with hnil | h
    · exact .inl (List.append_eq_nil_iff.1 hnil).2
    · exact .inr (h.append hmore)

/-- Other bytes may stand behind the last of some lines. -/
theorem EndsLine.other {bytes more behind others : List UInt8}
    (h : EndsLine bytes (more ++ behind)) (hothers : EndsLine (bytes ++ more) others) :
    EndsLine bytes (more ++ others) ∧ EndsLine more others := by
  rcases hothers with rfl | hothers
  · rw [List.append_nil]
    refine ⟨?_, .inl rfl⟩
    rcases h with hnil | h
    · exact .inl (List.append_eq_nil_iff.1 hnil).1
    · exact .inr h
  · refine ⟨?_, .inr hothers.of_append⟩
    rcases h with hnil | h
    · obtain ⟨rfl, -⟩ := List.append_eq_nil_iff.1 hnil
      exact .inr (by simpa using hothers)
    · exact .inr h

theorem Source.ofBytes_parts {bytes more behind : List UInt8}
    (h : EndsLine bytes (more ++ behind)) (hmore : EndsLine more behind) :
    ofBytes (bytes ++ more ++ behind) = ofBytes bytes ++ (ofBytes more ++ ofBytes behind) := by
  calc ofBytes (bytes ++ more ++ behind)
      = ofBytes (bytes ++ (more ++ behind)) := by rw [List.append_assoc]
    _ = ofBytes bytes ++ ofBytes (more ++ behind) := ofBytes_append h
    _ = ofBytes bytes ++ (ofBytes more ++ ofBytes behind) := by rw [ofBytes_append hmore]

/-- How far a parse has read that gave the tree, where the bytes have been used for the calls before.
Three parts of the bytes are told apart: those that the calls had loaded, those that were loaded for
the tree, and those that are left. -/
structure Goal.StopsBehind (goal : Goal) (bytes : List UInt8) (calls : List Call)
    (passed loaded unread : List UInt8) (tree : goal.Tree) (rest : TokenStream) : Prop where
  parts : bytes = passed ++ loaded ++ unread
  before : (Call.runAll calls (.ofBytes bytes)).unread = .ofBytes (loaded ++ unread)
  behind : rest.unread = .ofBytes unread
  pending : rest.pending = none
  takes : (Call.runAll calls (.ofBytes bytes)).Takes (goal.tokens tree) rest
  /-- The last token of the tree is on the last line that was loaded for it. -/
  loads : (Call.runAll calls (.ofBytes bytes)).Loads (goal.tokens tree) (.ofBytes loaded) rest
  untouched_iff : loaded = [] ↔
    (goal.tokens tree).length ≤ (Call.runAll calls (.ofBytes bytes)).buffered.length
  endsLine : EndsLine (passed ++ loaded) unread
  /-- Whichever bytes stand behind that line, the calls lead to the same state but for these bytes,
  and the parse gives the same tree and leaves them. -/
  any_behind (others : List UInt8) : EndsLine (passed ++ loaded) others →
    let other := Call.runAll calls (.ofBytes (passed ++ loaded ++ others))
    other = (Call.runAll calls (.ofBytes bytes)).withUnread (.ofBytes (loaded ++ others)) ∧
      goal.start.run other = (.ok tree, rest.withUnread (.ofBytes others))

theorem ParseState.Accepts.tokens_ne_nil {state : ParseState goal} {tokens : List Token}
    {tree : goal.Tree} (h : state.Accepts tokens tree) : tokens ≠ [] := by
  cases h <;> simp

theorem Goal.exists_stopsBehind {bytes : List UInt8} {calls : List Call} {tree : goal.Tree}
    (h : goal.start.run (Call.runAll calls (.ofBytes bytes)) = (.ok tree, rest)) :
    ∃ passed loaded unread, goal.StopsBehind bytes calls passed loaded unread tree rest := by
  obtain ⟨tokens, htakes, haccepts⟩ := ParseState.run_eq_ok_iff.1 h
  have hpending := htakes.pending haccepts.tokens_ne_nil
  rw [← haccepts.tokens_start] at htakes
  obtain ⟨lines, hloads⟩ := htakes.exists_loads
  rcases Call.runAll_cases calls (.ofBytes bytes) with hend | ⟨first, hfirst, hcalls⟩
  · -- Behind the end of the source there is nothing to parse.
    simp [hend, ParseState.run_ended] at h
  rcases goal.start.run_loads (Call.runAll calls (.ofBytes bytes)) with
    hend | ⟨more, result, last, hreads⟩
  · simp [hend] at h
  obtain ⟨rfl, rfl⟩ := Prod.mk.inj (h.symm.trans hreads.eq)
  obtain rfl := List.append_cancel_right (hreads.unread.symm.trans hloads.unread)
  rw [hloads.unread] at hfirst
  obtain ⟨passed, tail, rfl, rfl, htail, hpassed⟩ := Source.exists_of_ofBytes hfirst
  obtain ⟨loaded, unread, rfl, rfl, hunread, hloaded⟩ := Source.exists_of_ofBytes htail
  refine ⟨passed, loaded, unread, (List.append_assoc _ _ _).symm, ?_, hunread.symm, hpending, htakes,
    hloads, ?_, hpassed.append hloaded, fun others hothers => ?_⟩
  · rw [hloads.unread, htail]
  · rw [← hloads.nil_iff, Source.ofBytes_eq_nil]
  · obtain ⟨hpassedOthers, hloadedOthers⟩ := hpassed.other hothers
    have hbytes : TokenStream.ofBytes (passed ++ loaded ++ others) =
        (TokenStream.ofBytes (passed ++ (loaded ++ unread))).withUnread
          (.ofBytes passed ++ (.ofBytes loaded ++ .ofBytes others)) :=
      congrArg (TokenStream.mk · [] none) (Source.ofBytes_parts hpassedOthers hloadedOthers)
    have hstate := hcalls (.ofBytes loaded ++ .ofBytes others)
    rw [← hbytes] at hstate
    intro other
    rw [show other = _ from hstate, ← Source.ofBytes_append hloadedOthers]
    refine ⟨rfl, ?_⟩
    rw [Source.ofBytes_append hloadedOthers, hreads.any_behind]

/-- A parse that succeeds has loaded the line on which its tree ends, if it was not loaded before,
and no line behind it. No token is pending then, and the tree does not depend on the bytes behind
that line. Where the line has no line feed the source ends with it, and there is nothing behind. -/
theorem parse_leaves_rest_unread (bytes : List UInt8) (calls : List Call) (rest : TokenStream) :
    let stream := Call.runAll calls (.ofBytes bytes)
    (∀ statement, parseStatement stream = (.ok statement, rest) →
        ∃ passed loaded unread,
          Goal.statement.StopsBehind bytes calls passed loaded unread statement rest) ∧
      (∀ expr, parseExpression stream = (.ok expr, rest) →
        ∃ passed loaded unread,
          Goal.expression.StopsBehind bytes calls passed loaded unread expr rest) ∧
      ∀ block, parseBlock stream = (.ok block, rest) →
        ∃ passed loaded unread,
          Goal.block.StopsBehind bytes calls passed loaded unread block rest :=
  ⟨fun _ => Goal.exists_stopsBehind, fun _ => Goal.exists_stopsBehind,
    fun _ => Goal.exists_stopsBehind⟩

/-- A statement on three lines, an expression, a block on two lines, and a byte that is no UTF-8. -/
def mixedSource : List UInt8 :=
  "x = [\n1\n2] y \x7b\n\x7d\n".toUTF8.data.toList ++ [0xFF]

theorem mixedSource_read_no_further :
    (∃ statement rest, parseStatement (Call.runAll [] (.ofBytes mixedSource)) =
        (.ok statement, rest) ∧
      ∃ passed loaded unread,
        Goal.statement.StopsBehind mixedSource [] passed loaded unread statement rest) ∧
    (∃ expr rest, parseExpression (Call.runAll [.parse .statement] (.ofBytes mixedSource)) =
        (.ok expr, rest) ∧
      ∃ passed loaded unread, Goal.expression.StopsBehind mixedSource [.parse .statement]
        passed loaded unread expr rest) ∧
    ∃ block rest, parseBlock
        (Call.runAll [.parse .statement, .parse .expression] (.ofBytes mixedSource)) =
        (.ok block, rest) ∧
      ∃ passed loaded unread, Goal.block.StopsBehind mixedSource
        [.parse .statement, .parse .expression] passed loaded unread block rest := by
  have hstatement : (parseStatement (Call.runAll [] (.ofBytes mixedSource))).1 =
      .ok (.assign ⟨"x"⟩ (.list [.simple ⟨"1"⟩, .simple ⟨"2"⟩])) := by decide +kernel
  have hexpr : (parseExpression (Call.runAll [.parse .statement] (.ofBytes mixedSource))).1 =
      .ok (.simple ⟨"y"⟩) := by decide +kernel
  have hblock : (parseBlock (Call.runAll [.parse .statement, .parse .expression]
      (.ofBytes mixedSource))).1 = .ok [] := by decide +kernel
  exact ⟨⟨_, _, Prod.ext hstatement rfl,
      (parse_leaves_rest_unread mixedSource [] _).1 _ (Prod.ext hstatement rfl)⟩,
    ⟨_, _, Prod.ext hexpr rfl,
      (parse_leaves_rest_unread mixedSource _ _).2.1 _ (Prod.ext hexpr rfl)⟩,
    _, _, Prod.ext hblock rfl,
      (parse_leaves_rest_unread mixedSource _ _).2.2 _ (Prod.ext hblock rfl)⟩

end TinyScript
