import TinyScript.Proofs.Program.Grammar

/-!
# Statements one after the other

What is read from a stream is determined by the tokens that are left of it and by how they end
(`parseStatements_congr`). No statement takes a token behind its last one, and a line feed ends
every token. So where two texts stand one below the other, the statements of the first are read and
then those of the second (`parseStatements_below`).
-/

namespace TinyScript

namespace TokenStream

variable {stream other seen : TokenStream}

/-! ## Streams with the same tokens left -/

theorem lookahead_ok_congr {token : Token} (h : stream.drain = other.drain)
    (hlook : stream.lookahead = (.ok token, seen)) :
    ∃ last, other.lookahead = (.ok token, last) ∧ seen.advance.drain = last.advance.drain := by
  have hdrain := drain_of_next (next_of_lookahead hlook)
  obtain ⟨rest, hnext, hrest⟩ := exists_next_of_drain (h.symm.trans hdrain)
  obtain ⟨last, hother, rfl⟩ := lookahead_of_next hnext
  exact ⟨last, hother, hrest.symm⟩

theorem drain_of_lookahead_error {error : StreamError}
    (hlook : stream.lookahead = (.error error, seen)) :
    stream.drain = ([], if error = .endOfInput then none else some error) := by
  have hnext : stream.next = (.error error, seen) := by rw [next, hlook]
  cases error with
  | endOfInput => exact drain_of_next_end hnext
  | undecodable => exact drain_of_next_undecodable hnext

theorem lookahead_error_congr {error : StreamError} (h : stream.drain = other.drain)
    (hlook : stream.lookahead = (.error error, seen)) :
    ∃ last, other.lookahead = (.error error, last) := by
  rcases hother : other.lookahead with ⟨cause | token, last⟩
  · have hdrain := (drain_of_lookahead_error hlook).symm.trans
      (h.trans (drain_of_lookahead_error hother))
    cases error <;> cases cause <;> simp at hdrain ⊢
  · -- A token that the other stream shows, this one would show as well.
    obtain ⟨_, htoken, _⟩ := lookahead_ok_congr h.symm hother
    simp [hlook] at htoken

theorem drain_of_hasNext_false (hnext : stream.hasNext = (.ok false, seen)) :
    stream.drain = ([], none) := by
  unfold hasNext at hnext
  split at hnext
  · simp at hnext
  · next hlook => exact drain_of_lookahead_error hlook
  · simp at hnext

theorem drain_of_hasNext_true (hnext : stream.hasNext = (.ok true, seen)) :
    seen.drain = stream.drain := by
  unfold hasNext at hnext
  split at hnext
  · next hlook =>
      cases hnext
      exact drain_congr (next_lookahead hlook)
  · simp at hnext
  · simp at hnext

theorem error_of_hasNext {error : StreamError} (hnext : stream.hasNext = (.error error, seen)) :
    error = .undecodable := by
  unfold hasNext at hnext
  split at hnext
  · simp at hnext
  · simp at hnext
  · next cause _ hne hlook =>
      cases hnext
      cases error with
      | endOfInput => exact (hne rfl).elim
      | undecodable => rfl

theorem hasNext_congr {found : Except StreamError Bool} (h : stream.drain = other.drain)
    (hnext : stream.hasNext = (found, seen)) :
    ∃ last, other.hasNext = (found, last) ∧ (found = .ok true → seen.drain = last.drain) := by
  have hfound : ∃ last, other.hasNext = (found, last) := by
    unfold hasNext at hnext
    split at hnext
    · next hlook =>
        obtain ⟨last, hother, _⟩ := lookahead_ok_congr h hlook
        cases hnext
        exact ⟨last, by rw [hasNext, hother]⟩
    · next hlook =>
        obtain ⟨last, hother⟩ := lookahead_error_congr h hlook
        cases hnext
        exact ⟨last, by rw [hasNext, hother]⟩
    · next error _ hne hlook =>
        obtain ⟨last, hother⟩ := lookahead_error_congr h hlook
        cases hnext
        exact ⟨last, by simp only [hasNext, hother]⟩
  obtain ⟨last, hother⟩ := hfound
  refine ⟨last, hother, ?_⟩
  rintro rfl
  rw [drain_of_hasNext_true hnext, drain_of_hasNext_true hother, h]

end TokenStream

/-! ## Parses of such streams -/

variable {goal : Goal} {stream other : TokenStream}

/-- The result of a parse is determined by the tokens that are left and by how they end. A parse
that succeeds leaves the same tokens. -/
theorem ParseState.run_congr {state : ParseState goal} {rest : TokenStream}
    {result : Except Error goal.Tree} (h : stream.drain = other.drain)
    (hrun : state.run stream = (result, rest)) :
    ∃ last, state.run other = (result, last) ∧
      ∀ tree, result = .ok tree → rest.drain = last.drain := by
  fun_induction ParseState.run state stream generalizing other with
  | case1 state stream error seen hlook =>
      cases hrun
      obtain ⟨last, hother⟩ := TokenStream.lookahead_error_congr h hlook
      exact ⟨last, by rw [run_eq, hother], by simp⟩
  | case2 state stream token seen hlook next hstep _ ih =>
      obtain ⟨middle, hother, hmiddle⟩ := TokenStream.lookahead_ok_congr h hlook
      obtain ⟨last, hnext, hlast⟩ := ih hmiddle hrun
      exact ⟨last, by simp only [run_eq state other, hother, hstep, hnext], hlast⟩
  | case3 state stream token seen hlook tree hstep =>
      cases hrun
      obtain ⟨last, hother, hlast⟩ := TokenStream.lookahead_ok_congr h hlook
      exact ⟨last.advance, by simp only [run_eq state other, hother, hstep], fun _ _ => hlast⟩
  | case4 state stream token seen hlook error hstep =>
      cases hrun
      obtain ⟨last, hother, _⟩ := TokenStream.lookahead_ok_congr h hlook
      exact ⟨last.advance, by simp only [run_eq state other, hother, hstep], by simp⟩
  | case5 state stream token seen hlook error hstep =>
      cases hrun
      obtain ⟨last, hother, _⟩ := TokenStream.lookahead_ok_congr h hlook
      exact ⟨last, by simp only [run_eq state other, hother, hstep], by simp⟩

/-- The statements that are read, and the error behind them, are determined by the tokens that are
left and by how they end. -/
theorem parseStatements_congr (h : stream.drain = other.drain) :
    parseStatements stream = parseStatements other := by
  fun_induction parseStatements stream generalizing other with
  | case1 stream error rest hnext =>
      obtain ⟨last, hother, _⟩ := TokenStream.hasNext_congr h hnext
      rw [parseStatements_eq, hother]
  | case2 stream rest hnext =>
      obtain ⟨last, hother, _⟩ := TokenStream.hasNext_congr h hnext
      rw [parseStatements_eq, hother]
  | case3 stream seen hnext error rest hparse =>
      obtain ⟨middle, hother, hmiddle⟩ := TokenStream.hasNext_congr h hnext
      obtain ⟨last, hrun, _⟩ := ParseState.run_congr (hmiddle rfl) hparse
      have hrefused : parseStatement middle = (.error error, last) := hrun
      rw [parseStatements_eq, hother]
      simp only [hrefused]
  | case4 stream seen hnext statement rest hparse _ statements error hrest ih =>
      obtain ⟨middle, hother, hmiddle⟩ := TokenStream.hasNext_congr h hnext
      obtain ⟨last, hrun, hlast⟩ := ParseState.run_congr (hmiddle rfl) hparse
      have hread : parseStatement middle = (.ok statement, last) := hrun
      rw [parseStatements_eq other, hother]
      simp only [hread, ← ih (hlast statement rfl), hrest]

/-! ## As many statements as there are -/

/-- The statements are well-formed, their sentences come first among the tokens, and no longer list
of well-formed statements has its sentences there. -/
structure Statement.IsLongestReading (statements : List Statement) (tokens : List Token) :
    Prop where
  wellFormed : wellFormedAll statements = true
  reads : tokensAll statements <+: tokens
  longest {others : List Statement} : wellFormedAll others = true →
    tokensAll others <+: tokens → others <+: statements

/-- What is read comes first among the tokens, and without an error there are no others. -/
theorem parseStatements_reads (stream : TokenStream) :
    Statement.wellFormedAll (parseStatements stream).1 = true ∧
      Statement.tokensAll (parseStatements stream).1 <+: stream.drain.1 ∧
      ((parseStatements stream).2 = none →
        stream.drain = (Statement.tokensAll (parseStatements stream).1, none)) := by
  fun_induction parseStatements stream with
  | case1 => exact ⟨rfl, List.nil_prefix, by simp⟩
  | case2 stream rest hnext =>
      exact ⟨rfl, List.nil_prefix, fun _ => TokenStream.drain_of_hasNext_false hnext⟩
  | case3 => exact ⟨rfl, List.nil_prefix, by simp⟩
  | case4 stream seen hnext statement rest hparse _ statements error hrest ih =>
      obtain ⟨hwell, htakes⟩ := Goal.statement.readBy_run.sound hparse
      rw [hrest] at ih
      obtain ⟨hwellAll, hprefix, hend⟩ := ih
      rw [← TokenStream.drain_of_hasNext_true hnext, htakes.drain_eq]
      refine ⟨?_, (List.prefix_append_right_inj _).2 hprefix, ?_⟩
      · rw [Statement.wellFormedAll, Bool.and_eq_true]
        exact ⟨hwell, hwellAll⟩
      · intro hnone
        rw [hend hnone]
        rfl

theorem prefix_parseStatements {statements : List Statement}
    (hwell : Statement.wellFormedAll statements = true)
    (h : Statement.tokensAll statements <+: stream.drain.1) :
    statements <+: (parseStatements stream).1 := by
  induction statements generalizing stream with
  | nil => exact List.nil_prefix
  | cons statement statements ih =>
      rw [Statement.wellFormedAll, Bool.and_eq_true] at hwell
      obtain ⟨more, hmore⟩ := h
      rw [Statement.tokensAll, List.append_assoc] at hmore
      obtain ⟨rest, hrest, hfirst⟩ := parseStatements_of_accepts
        (Goal.statement.leads _ hwell.1).accepts (Prod.ext hmore.symm rfl)
      rw [hfirst]
      apply List.cons_prefix_cons.2
      refine ⟨rfl, ih hwell.2 ?_⟩
      rw [hrest]
      exact ⟨more, rfl⟩

/-- Reading goes on as long as statements can be read. -/
theorem parseStatements_isLongestReading (stream : TokenStream) :
    Statement.IsLongestReading (parseStatements stream).1 stream.drain.1 where
  wellFormed := (parseStatements_reads stream).1
  reads := (parseStatements_reads stream).2.1
  longest := prefix_parseStatements

/-- There is no error where the statements that are read take all tokens. -/
theorem parseStatements_error_iff (stream : TokenStream) :
    (parseStatements stream).2 = none ↔
      stream.drain = (Statement.tokensAll (parseStatements stream).1, none) := by
  obtain ⟨hwell, -, hend⟩ := parseStatements_reads stream
  rw [Statement.wellFormedAll_eq_all, List.all_eq_true] at hwell
  refine ⟨hend, fun h => ?_⟩
  have haccepts : ∀ statement ∈ (parseStatements stream).1,
      Goal.statement.start.Accepts statement.tokens statement := by
    intro statement hstatement
    exact (Goal.statement.leads _ (hwell statement hstatement)).accepts
  rw [parseStatements_of_drain haccepts h]

/-! ## Texts one below the other -/

/-- Where the statements of a stream can be read to its end, they are read in the same way where its
tokens stand before others. -/
theorem parseStatements_append {more : TokenStream} (hend : (parseStatements stream).2 = none)
    (hdrain : other.drain = (stream.drain.1 ++ more.drain.1, more.drain.2)) :
    parseStatements other =
      ((parseStatements stream).1 ++ (parseStatements more).1, (parseStatements more).2) := by
  fun_induction parseStatements stream generalizing other with
  | case1 => simp at hend
  | case2 stream rest hnext =>
      rw [TokenStream.drain_of_hasNext_false hnext] at hdrain
      exact parseStatements_congr hdrain
  | case3 => simp at hend
  | case4 stream seen hnext statement rest hparse _ statements error hrest ih =>
      obtain ⟨hwell, htakes⟩ := Goal.statement.readBy_run.sound hparse
      rw [← TokenStream.drain_of_hasNext_true hnext, htakes.drain_eq, List.append_assoc] at hdrain
      obtain ⟨last, hlast, hfirst⟩ :=
        parseStatements_of_accepts (Goal.statement.leads _ hwell).accepts hdrain
      rw [hrest] at ih
      rw [hfirst, ih hend hlast]
      rfl

/-- A text that can be read to its end is read in the same way with another text below it. -/
theorem parseStatements_below {above below : String}
    (h : (parseStatements (.ofText above)).2 = none) :
    parseStatements (.ofText (above ++ "\n" ++ below)) =
      ((parseStatements (.ofText above)).1 ++ (parseStatements (.ofText below)).1,
        (parseStatements (.ofText below)).2) := by
  apply parseStatements_append h
  have hchars : (above ++ "\n" ++ below).toList = above.toList ++ '\n' :: below.toList := by
    simp
  simp only [TokenStream.drain_ofText, hchars, tokensOf_append_cons isBlank_lineFeed]

end TinyScript
