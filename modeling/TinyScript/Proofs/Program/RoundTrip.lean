import TinyScript.Proofs.Program.Spelling

/-!
# Reading back what was rendered

A parse takes the sentence of its tree, and each token of that sentence stands by itself. So the
text of the tree is cut into the tokens that the parse has taken, and a parse of the text goes
through the same states to the same tree (`rendering_undone_by_parsing`).
-/

namespace TinyScript

/-- The state of a parse before its first token. -/
def Goal.start : (goal : Goal) → ParseState goal
  | .statement => .statement .whole
  | .expression => .expression .whole
  | .block => .brace .whole

theorem Goal.read_start (goal : Goal) : goal.start.read = [] := by
  cases goal <;> rfl

/-- Reads statements up to the end of a stream or to the first that cannot be read. -/
def parseStatements (stream : TokenStream) : List Statement × Option Error :=
  match hnext : stream.hasNext with
  | (.error e, _) => ([], some e.toError)
  | (.ok false, _) => ([], none)
  | (.ok true, seen) =>
    match hparse : parseStatement seen with
    | (.error e, _) => ([], some e)
    | (.ok statement, rest) =>
      have : rest.size < stream.size :=
        Nat.lt_of_lt_of_le (ParseState.size_of_run hparse) (TokenStream.size_hasNext_le hnext)
      let (statements, error) := parseStatements rest
      (statement :: statements, error)
termination_by stream.size

theorem parseStatements_eq (stream : TokenStream) :
    parseStatements stream =
      match stream.hasNext with
      | (.error e, _) => ([], some e.toError)
      | (.ok false, _) => ([], none)
      | (.ok true, seen) =>
        match parseStatement seen with
        | (.error e, _) => ([], some e)
        | (.ok statement, rest) =>
          (statement :: (parseStatements rest).1, (parseStatements rest).2) := by
  rw [parseStatements]
  split
  · next hnext => rw [hnext]
  · next hnext => rw [hnext]
  · next hnext =>
      simp only [hnext]
      split
      · next hparse => rw [hparse]
      · next hparse => rw [hparse]

/-- Whatever the parser reads from a stream, the text of the tree is cut into the tokens that were
taken, and from that text alone the parser reads the tree and leaves no token. -/
def RoundTrips {Tree : Type} (parse : TokenStream → Parsed Tree) (render : Tree → String) : Prop :=
  ∀ (stream rest : TokenStream) (tree : Tree),
    stream.Reachable → parse stream = (.ok tree, rest) →
      ∃ consumed last, stream.Takes consumed rest ∧
        (TokenStream.ofText (render tree)).drain = (consumed, none) ∧
        parse (.ofText (render tree)) = (.ok tree, last) ∧ last.drain = ([], none)

/-! ## One tree -/

section

variable {goal : Goal} {stream rest : TokenStream} {tree : goal.Tree} {tokens : List Token}

theorem ParseState.Accepts.tokens_start (h : goal.start.Accepts tokens tree) :
    goal.tokens tree = tokens := by
  rw [h.tokens_eq, goal.read_start, List.nil_append]

/-- What a parse has taken from a stream is spelled by the text of its tree. -/
theorem spells_of_accepts (hstream : stream.Reachable) (htakes : stream.Takes tokens rest)
    (haccepts : goal.start.Accepts tokens tree) : Spells (goal.render tree) tokens := by
  have hstands : ∀ token ∈ goal.tokens tree, token.Stands := by
    rw [haccepts.tokens_start]
    intro token htoken
    exact stands_of_isLexeme (hstream.isLexeme_of_takes htakes token htoken)
      (haccepts.kind_ne_unknown token htoken)
  have hspells := goal.spells_render tree hstands
  rwa [haccepts.tokens_start] at hspells

/-- A parse of a stream that starts with the sentence of a tree reads the tree. -/
theorem run_of_drain {more : List Token} {error : Option StreamError}
    (haccepts : goal.start.Accepts tokens tree)
    (hdrain : stream.drain = (tokens ++ more, error)) :
    ∃ last, goal.start.run stream = (.ok tree, last) ∧ last.drain = (more, error) := by
  obtain ⟨last, htakes, hlast⟩ := TokenStream.exists_takes_of_drain hdrain
  exact ⟨last, ParseState.run_eq_ok_iff.2 ⟨tokens, htakes, haccepts⟩, hlast⟩

end

theorem Goal.roundTrips (goal : Goal) : RoundTrips goal.start.run goal.render := by
  intro stream rest tree hstream hparse
  obtain ⟨tokens, htakes, haccepts⟩ := ParseState.run_eq_ok_iff.1 hparse
  have hspells := spells_of_accepts hstream htakes haccepts
  have hdrain : (TokenStream.ofText (goal.render tree)).drain = (tokens, none) := by
    rw [TokenStream.drain_ofText, hspells.tokensOf_eq]
  have hwhole : (TokenStream.ofText (goal.render tree)).drain = (tokens ++ [], none) := by
    rw [hdrain, List.append_nil]
  obtain ⟨last, hrun, hlast⟩ := run_of_drain haccepts hwhole
  exact ⟨tokens, last, htakes, hdrain, hrun, hlast⟩

/-! ## Many statements -/

/-- The statement was read from some source. -/
def Statement.IsParsed (statement : Statement) : Prop :=
  ∃ stream rest : TokenStream, stream.Reachable ∧ parseStatement stream = (.ok statement, rest)

theorem Statement.IsParsed.spells_and_accepts {statement : Statement} (h : statement.IsParsed) :
    Spells statement.render statement.tokens ∧
      Goal.statement.start.Accepts statement.tokens statement := by
  obtain ⟨stream, rest, hstream, hparse⟩ := h
  have hrun : Goal.statement.start.run stream = (.ok statement, rest) := hparse
  obtain ⟨tokens, htakes, haccepts⟩ := ParseState.run_eq_ok_iff.1 hrun
  have hspells := spells_of_accepts hstream htakes haccepts
  rw [show statement.tokens = tokens from haccepts.tokens_start]
  exact ⟨hspells, haccepts⟩

theorem tokensOf_joined {statements : List Statement}
    (h : ∀ statement ∈ statements, Spells statement.render statement.tokens) :
    tokensOf ("\n".intercalate (statements.map Statement.render)).toList =
      Statement.tokensAll statements := by
  rw [String.toList_intercalate, Statement.tokensAll_eq_flatMap]
  rw [show "\n".toList = ['\n'] from rfl, tokensOf_intercalate, List.map_map, List.flatMap_map]
  apply List.flatMap_congr
  intro statement hstatement
  exact (h statement hstatement).tokensOf_eq

theorem Statement.tokens_ne_nil (statement : Statement) : statement.tokens ≠ [] := by
  cases statement <;> simp [tokens, bracedTokens]

/-- From a stream that starts with the sentence of a statement, that statement is read first. -/
theorem parseStatements_of_accepts {statement : Statement} {stream : TokenStream}
    {more : List Token} {error : Option StreamError}
    (haccepts : Goal.statement.start.Accepts statement.tokens statement)
    (hdrain : stream.drain = (statement.tokens ++ more, error)) :
    ∃ rest, rest.drain = (more, error) ∧
      parseStatements stream =
        (statement :: (parseStatements rest).1, (parseStatements rest).2) := by
  obtain ⟨token, tokens, htokens⟩ := List.exists_cons_of_ne_nil statement.tokens_ne_nil
  obtain ⟨seen, hnext, hseen⟩ :=
    TokenStream.hasNext_of_drain_cons (by rw [hdrain, htokens, List.cons_append])
  rw [← List.cons_append, ← htokens] at hseen
  obtain ⟨rest, hrun, hrest⟩ := run_of_drain haccepts hseen
  have hparse : parseStatement seen = (.ok statement, rest) := hrun
  refine ⟨rest, hrest, ?_⟩
  rw [parseStatements_eq, hnext]
  simp only [hparse]

theorem parseStatements_of_drain {statements : List Statement} {stream : TokenStream}
    (haccepts : ∀ statement ∈ statements,
      Goal.statement.start.Accepts statement.tokens statement)
    (hdrain : stream.drain = (Statement.tokensAll statements, none)) :
    parseStatements stream = (statements, none) := by
  induction statements generalizing stream with
  | nil =>
      obtain ⟨rest, hnext⟩ := TokenStream.hasNext_of_drain_nil hdrain
      rw [parseStatements_eq, hnext]
  | cons statement statements ih =>
      obtain ⟨rest, hrest, hfirst⟩ :=
        parseStatements_of_accepts (haccepts statement (by simp)) hdrain
      rw [hfirst, ih (fun other hother => haccepts other (by simp [hother])) hrest]

/-- Rendering is undone by parsing: for statements, expressions and blocks, and for statements that
are rendered one below the other. -/
theorem rendering_undone_by_parsing :
    RoundTrips parseStatement Statement.render ∧
      RoundTrips parseExpression Expr.render ∧
      RoundTrips parseBlock Block.render ∧
      ∀ statements : List Statement, (∀ statement ∈ statements, statement.IsParsed) →
        parseStatements (.ofText ("\n".intercalate (statements.map Statement.render))) =
          (statements, none) := by
  refine ⟨Goal.statement.roundTrips, Goal.expression.roundTrips, Goal.block.roundTrips, ?_⟩
  intro statements hparsed
  apply parseStatements_of_drain
  · intro statement hstatement
    exact (hparsed statement hstatement).spells_and_accepts.2
  · rw [TokenStream.drain_ofText, tokensOf_joined]
    intro statement hstatement
    exact (hparsed statement hstatement).spells_and_accepts.1

/-- A call with a quoted brace and a quoted quote among its arguments. -/
def quotingCall : Expr :=
  .call ⟨"cat"⟩ [.simple ⟨"\"a\x7bb\""⟩, .list [.simple ⟨"'\"'"⟩]]

theorem quotes_read_back :
    (∃ consumed last,
      (TokenStream.ofText "print(cat \"a\x7bb\"['\"'])").Takes consumed ⟨[], [], none⟩ ∧
      (TokenStream.ofText (Statement.print quotingCall).render).drain = (consumed, none) ∧
      parseStatement (.ofText (Statement.print quotingCall).render) =
        (.ok (.print quotingCall), last) ∧ last.drain = ([], none)) ∧
    (∃ last, parseExpression (.ofText quotingCall.render) = (.ok quotingCall, last)) ∧
    (∃ last, parseBlock (.ofText (Block.render [.print quotingCall])) =
      (.ok [.print quotingCall], last)) ∧
    parseStatements (.ofText ("\n".intercalate
      ([.print quotingCall, .print quotingCall].map Statement.render))) =
        ([.print quotingCall, .print quotingCall], none) := by
  obtain ⟨hstatement, hexpression, hblock, hstatements⟩ := rendering_undone_by_parsing
  have hprint : parseStatement (.ofText "print(cat \"a\x7bb\"['\"'])") =
      (.ok (.print quotingCall), ⟨[], [], none⟩) := by decide +kernel
  have hcall : parseExpression (.ofText "(cat \"a\x7bb\"['\"'])") =
      (.ok quotingCall, ⟨[], [], none⟩) := by decide +kernel
  have hbraces : parseBlock (.ofText "\x7bprint(cat \"a\x7bb\"['\"'])\x7d") =
      (.ok [.print quotingCall], ⟨[], [], none⟩) := by decide +kernel
  obtain ⟨_, calls, _, _, hcalls, _⟩ := hexpression _ _ _ (.start _) hcall
  obtain ⟨_, blocks, _, _, hblocks, _⟩ := hblock _ _ _ (.start _) hbraces
  refine ⟨hstatement _ _ _ (.start _) hprint, ⟨calls, hcalls⟩, ⟨blocks, hblocks⟩, ?_⟩
  apply hstatements
  intro statement hmember
  have heq : statement = .print quotingCall := by simpa using hmember
  exact heq ▸ ⟨_, _, .start _, hprint⟩

end TinyScript
