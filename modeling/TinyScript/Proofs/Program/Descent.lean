import TinyScript.Program.Descent
import TinyScript.Proofs.Token.Taking

/-!
# Places and recursive descent

A parse keeps what is open in a place where the functions of the recursive descent call each other.
What follows an item is to fill its place and to go on from there, so a parse that begins an item is
the function for the item and then what fills the place (`expression_reads`, `statement_reads`). By
themselves the functions read the same trees, with the same errors, from the same tokens
(`parse_descends`).
-/

namespace TinyScript

variable {goal : Goal} {α β : Type}

/-! ## Parsers in sequence -/

namespace Parser

variable {stream rest seen : TokenStream} {token : Token}

theorem bind_of_ok {parser : Parser α} {result : α} (h : parser stream = (.ok result, rest))
    (next : α → Parser β) : (parser >>= next) stream = next result rest := by
  change Parser.bind parser next stream = _
  rw [Parser.bind, h]

theorem bind_of_error {parser : Parser α} {error : Error} (h : parser stream = (.error error, rest))
    (next : α → Parser β) : (parser >>= next) stream = (.error error, rest) := by
  change Parser.bind parser next stream = _
  rw [Parser.bind, h]

theorem exists_of_bind {parser : Parser α} {next : α → Parser β} {result : β}
    (h : (parser >>= next) stream = (.ok result, rest)) :
    ∃ first behind, parser stream = (.ok first, behind) ∧
      next first behind = (.ok result, rest) := by
  rcases hparser : parser stream with ⟨error | first, behind⟩
  · rw [bind_of_error hparser] at h
    cases h
  · rw [bind_of_ok hparser] at h
    exact ⟨first, behind, rfl, h⟩

private theorem id_map_eq (parser : Parser α) : id <$> parser = parser := by
  funext stream
  change Parser.bind parser _ stream = _
  unfold Parser.bind
  rcases parser stream with ⟨_ | _, _⟩ <;> rfl

private theorem bind_bind {γ : Type} (parser : Parser α) (next : α → Parser β)
    (last : β → Parser γ) :
    parser >>= next >>= last = parser >>= fun result => next result >>= last := by
  funext stream
  change Parser.bind (Parser.bind parser next) last stream = Parser.bind parser _ stream
  unfold Parser.bind
  rcases parser stream with ⟨_ | _, _⟩ <;> rfl

instance : LawfulMonad Parser :=
  .mk' Parser id_map_eq (fun _ _ => rfl) bind_bind

theorem lookahead_of_ok (h : stream.lookahead = (.ok token, seen)) :
    lookahead stream = (.ok token, seen) := by
  rw [lookahead, h]

theorem lookahead_of_error {error : StreamError} (h : stream.lookahead = (.error error, seen)) :
    lookahead stream = (.error error.toError, seen) := by
  rw [lookahead, h]

theorem next_of_ok (h : stream.lookahead = (.ok token, seen)) :
    next stream = (.ok token, seen.advance) := by
  rw [next, TokenStream.next_of_lookahead h]

theorem next_of_error {error : StreamError} (h : stream.lookahead = (.error error, seen)) :
    next stream = (.error error.toError, seen) := by
  rw [next, TokenStream.next, h]

theorem size_of_lookahead (h : lookahead stream = (.ok token, seen)) :
    seen.size ≤ stream.size := by
  have hsize := TokenStream.size_lookahead_le stream
  rcases hlook : stream.lookahead with ⟨error | first, behind⟩
  · rw [lookahead_of_error hlook] at h
    cases h
  · rw [lookahead_of_ok hlook] at h
    cases h
    rwa [hlook] at hsize

/-- To look at a token and then take it is to take it. -/
theorem lookahead_next (behind : Token → Token → Parser β) :
    (lookahead >>= fun token => next >>= behind token) =
      next >>= fun token => behind token token := by
  funext stream
  rcases hlook : stream.lookahead with ⟨error | token, seen⟩
  · rw [bind_of_error (lookahead_of_error hlook), bind_of_error (next_of_error hlook)]
  · rw [bind_of_ok (lookahead_of_ok hlook), bind_of_ok (next_of_ok hlook),
      bind_of_ok (next_of_ok (TokenStream.lookahead_lookahead hlook))]

/-! ## Streams below a size -/

/-- From streams below the size both parsers read the same. -/
def AgreeBelow (size : Nat) (parser other : Parser α) : Prop :=
  ∀ stream : TokenStream, stream.size < size → parser stream = other stream

/-- What the parser leaves of a stream below the size is smaller. -/
def ShrinksBelow (size : Nat) (parser : Parser α) : Prop :=
  ∀ (stream rest : TokenStream) (result : α), stream.size < size →
    parser stream = (.ok result, rest) → rest.size < stream.size

variable {size more : Nat} {parser other : Parser α} {next continued : α → Parser β}

theorem AgreeBelow.of_le (h : AgreeBelow size parser other) (hle : more ≤ size) :
    AgreeBelow more parser other :=
  fun stream hstream => h stream (Nat.lt_of_lt_of_le hstream hle)

theorem ShrinksBelow.of_le (h : ShrinksBelow size parser) (hle : more ≤ size) :
    ShrinksBelow more parser :=
  fun stream rest result hstream => h stream rest result (Nat.lt_of_lt_of_le hstream hle)

theorem AgreeBelow.trans {last : Parser α} (h : AgreeBelow size parser other)
    (hother : AgreeBelow size other last) : AgreeBelow size parser last :=
  fun stream hstream => (h stream hstream).trans (hother stream hstream)

/-- What comes behind a parser that takes a token has a smaller stream to read. -/
theorem ShrinksBelow.behind (hshrinks : ShrinksBelow size parser)
    (hle : size ≤ more + 1) (h : ∀ result, AgreeBelow more (next result) (continued result)) :
    AgreeBelow size (parser >>= next) (parser >>= continued) := by
  intro stream hstream
  rcases hparser : parser stream with ⟨error | result, rest⟩
  · rw [bind_of_error hparser, bind_of_error hparser]
  · have hrest := hshrinks stream rest result hstream hparser
    rw [bind_of_ok hparser, bind_of_ok hparser]
    exact h result rest (by omega)

/-- Behind a token that was only looked at, this token comes next. -/
theorem AgreeBelow.lookedAt {next continued : Token → Parser β}
    (h : ∀ token seen, seen.size < size → seen.lookahead = (.ok token, seen) →
      next token seen = continued token seen) :
    AgreeBelow size (lookahead >>= next) (lookahead >>= continued) := by
  intro stream hstream
  rcases hlook : stream.lookahead with ⟨error | token, seen⟩
  · rw [bind_of_error (lookahead_of_error hlook), bind_of_error (lookahead_of_error hlook)]
  · have hseen := TokenStream.size_lookahead_le stream
    rw [hlook] at hseen
    rw [bind_of_ok (lookahead_of_ok hlook), bind_of_ok (lookahead_of_ok hlook)]
    exact h token seen (Nat.lt_of_le_of_lt hseen hstream) (TokenStream.lookahead_lookahead hlook)

/-! ## Single tokens -/

theorem shrinksBelow_next (size : Nat) : ShrinksBelow size Parser.next := by
  intro stream rest token _ h
  rcases hlook : stream.lookahead with ⟨error | token, seen⟩
  · simp [next_of_error hlook] at h
  · rw [next_of_ok hlook] at h
    cases h
    exact TokenStream.size_advance_lt hlook

/-- A parser shrinks a stream if it takes a token and keeps what is behind it. -/
theorem ShrinksBelow.next_bind {next : Token → Parser α}
    (h : ∀ token stream rest result, next token stream = (.ok result, rest) → rest = stream) :
    ShrinksBelow size (Parser.next >>= next) := by
  intro stream rest result hstream hparser
  obtain ⟨token, behind, hnext, hrest⟩ := exists_of_bind hparser
  rw [h token behind rest result hrest]
  exact shrinksBelow_next size stream behind token hstream hnext

theorem shrinksBelow_expect (size : Nat) (spelling construct : String) :
    ShrinksBelow size (expect spelling construct) := by
  apply ShrinksBelow.next_bind
  intro token stream rest result h
  split at h <;> cases h
  rfl

theorem shrinksBelow_expectIdentifier (size : Nat) (what : String) :
    ShrinksBelow size (expectIdentifier what) := by
  apply ShrinksBelow.next_bind
  intro token stream rest result h
  split at h <;> cases h
  rfl

end Parser

/-! ## Places -/

open TinyScript.Parser

/-- A parse in this state, among the other parsers. -/
def ParseState.parser (state : ParseState goal) : Parser goal.Tree := state.run

/-- Goes on with a parse. -/
def Progress.resume : Progress goal → Parser goal.Tree
  | .more state => state.parser
  | .complete tree => pure tree
  | .reject error | .refuse error => fail error

/-- Takes the token that has been looked at, unless it is refused, and goes on with the parse. -/
def Progress.take : Progress goal → Parser goal.Tree
  | .refuse error => fail error
  | progress => next >>= fun _ => progress.resume

/-- The token is taken, right or wrong. -/
def Progress.IsTaken : Progress goal → Prop
  | .refuse _ => False
  | _ => True

theorem Progress.IsTaken.take_eq {progress : Progress goal} (h : progress.IsTaken) :
    progress.take = next >>= fun _ => progress.resume := by
  cases progress with
  | refuse error => exact h.elim
  | _ => rfl

theorem StatementPlace.isTaken_fill (place : StatementPlace goal) (statement : Statement) :
    (place.fill statement).IsTaken := by
  cases place <;> trivial

theorem ExprPlace.isTaken_fill (place : ExprPlace goal) (expr : Expr) :
    (place.fill expr).IsTaken := by
  cases place with
  | assigned place target => exact place.isTaken_fill _
  | printed place => exact place.isTaken_fill _
  | returned place => exact place.isTaken_fill _
  | _ => trivial

theorem BlockPlace.isTaken_fill (place : BlockPlace goal) (block : Block) :
    (place.fill block).IsTaken := by
  cases place with
  | whole => trivial
  | thenBranch place condition => trivial
  | _ => exact StatementPlace.isTaken_fill _ _

theorem ExprPlace.isTaken_begin (place : ExprPlace goal) (token : Token) :
    (place.begin token).IsTaken := by
  unfold begin
  split
  · trivial
  · split
    · trivial
    · split
      · exact place.isTaken_fill _
      · trivial

/-- A parse looks at one token, takes it and goes on. -/
theorem ParseState.parser_eq (state : ParseState goal) :
    state.parser = lookahead >>= fun token => (state.step token).take := by
  funext stream
  rw [parser, run]
  split
  next error seen hlook => exact (bind_of_error (lookahead_of_error hlook) _).symm
  next token seen hlook =>
    have hnext := next_of_ok (TokenStream.lookahead_lookahead hlook)
    rw [bind_of_ok (lookahead_of_ok hlook)]
    cases state.step token with
    | refuse error => rfl
    | more state => exact (bind_of_ok hnext fun _ => state.parser).symm
    | complete tree => exact (bind_of_ok hnext fun _ => pure tree).symm
    | reject error => exact (bind_of_ok hnext fun _ => fail error).symm

/-- Where no token is refused it can be taken at once. -/
theorem lookahead_take {begun : Token → Progress goal} (h : ∀ token, (begun token).IsTaken) :
    (lookahead >>= fun token => (begun token).take) =
      next >>= fun token => (begun token).resume := by
  simp only [(h _).take_eq]
  exact lookahead_next _

/-- A word that is known to come next can be taken unseen. -/
theorem expect_bind_of_spelling {stream seen : TokenStream} {token : Token} {word : String}
    (hlook : stream.lookahead = (.ok token, seen)) (hspelling : token.spelling = word)
    (construct : String) (behind : Parser α) :
    (expect word construct >>= fun _ => behind) stream = (next >>= fun _ => behind) stream := by
  rw [expect, bind_assoc, bind_of_ok (next_of_ok hlook), bind_of_ok (next_of_ok hlook),
    if_pos hspelling, pure_bind]

theorem ParseState.parser_of_expectWord {state behind : ParseState goal} {construct word : String}
    (hstep : ∀ token, state.step token = expectWord construct word token behind) :
    state.parser = expect word construct >>= fun _ => behind.parser := by
  have htaken (token : Token) : (expectWord construct word token behind).IsTaken := by
    unfold expectWord
    split <;> trivial
  rw [parser_eq]
  simp only [hstep]
  rw [lookahead_take htaken, expect, bind_assoc]
  congr 1
  funext token
  unfold expectWord
  split <;> rfl

theorem lookahead_expectName (what : String) (state : Token → ParseState goal) :
    (lookahead >>= fun token => (expectName what token (state token)).take) =
      expectIdentifier what >>= fun name => (state name).parser := by
  have htaken (token : Token) : (expectName what token (state token)).IsTaken := by
    unfold expectName
    split <;> trivial
  rw [lookahead_take htaken, expectIdentifier, bind_assoc]
  congr 1
  funext token
  unfold expectName
  split <;> rfl

/-! ## Items up to a word -/

section Items

variable {closing : String} {item : Parser α} {bound depth : Nat}
  {begun : List α → Token → Progress goal}

theorem shrinksBelow_itemsUntil (hitem : ShrinksBelow bound item) :
    ShrinksBelow bound (itemsUntil closing item depth) := by
  induction depth with
  | zero => exact fun _ _ _ _ h => nomatch h
  | succ depth ih =>
      intro stream rest items hstream hparser
      obtain ⟨token, seen, hlook, hparser⟩ := exists_of_bind hparser
      have hseen := size_of_lookahead hlook
      split at hparser
      · obtain ⟨_, behind, hnext, hparser⟩ := exists_of_bind hparser
        cases hparser
        exact Nat.lt_of_lt_of_le (shrinksBelow_next _ seen _ _ (Nat.lt_succ_self _) hnext) hseen
      · obtain ⟨first, behind, hfirst, hparser⟩ := exists_of_bind hparser
        obtain ⟨others, last, hothers, hparser⟩ := exists_of_bind hparser
        cases hparser
        have hbehind := hitem seen behind first (by omega) hfirst
        have hlast := ih behind rest others (by omega) hothers
        omega

/-- A parse that waits for an item or for the closing word reads items up to this word. The items
that it has are listed last first. -/
theorem itemsUntil_reads (waiting : List α → ParseState goal) (done : List α → Progress goal)
    (hstep : ∀ before token, (waiting before).step token =
      if token.spelling = closing then done before.reverse else begun before token)
    (hdone : ∀ items, (done items).IsTaken)
    (hitem : ∀ before, AgreeBelow bound (lookahead >>= fun token => (begun before token).take)
      (item >>= fun last => (waiting (last :: before)).parser))
    (hshrinks : ShrinksBelow bound item) (hdepth : depth ≤ bound) (before : List α) :
    AgreeBelow depth (waiting before).parser
      (itemsUntil closing item depth >>= fun behind =>
        (done (before.reverse ++ behind)).resume) := by
  induction depth generalizing before with
  | zero => exact fun _ h => absurd h (Nat.not_lt_zero _)
  | succ depth ih =>
      rw [ParseState.parser_eq, itemsUntil, bind_assoc]
      apply AgreeBelow.lookedAt
      intro token seen hseen hlook
      rw [hstep]
      by_cases hclosing : token.spelling = closing
      · simp only [hclosing, if_true, (hdone _).take_eq, bind_assoc, pure_bind, List.append_nil]
      · have hfirst := hitem before seen (Nat.lt_of_lt_of_le hseen hdepth)
        rw [bind_of_ok (lookahead_of_ok hlook)] at hfirst
        have hbehind (last : α) := ih (Nat.le_of_succ_le hdepth) (last :: before)
        simp only [List.reverse_cons, List.append_assoc, List.singleton_append] at hbehind
        simp only [hclosing, if_false, bind_assoc, pure_bind]
        rw [hfirst]
        exact ShrinksBelow.behind (hshrinks.of_le hdepth) (Nat.le_refl _) hbehind seen hseen

end Items

/-! ## Constructs -/

/-- What is left behind a tree is smaller. -/
theorem shrinksBelow_of_agree {size : Nat} (state : ParseState goal) {parser : Parser goal.Tree}
    (h : AgreeBelow size state.parser parser) : ShrinksBelow size parser :=
  fun stream _ _ hstream hparser => ParseState.size_of_run ((h stream hstream).trans hparser)

/-- What reads a tree in the place of a whole one reads this tree. -/
theorem Parser.AgreeBelow.whole {size : Nat} {first parser : Parser goal.Tree}
    (h : AgreeBelow size first (parser >>= fun tree => (Progress.complete tree).resume)) :
    AgreeBelow size first parser := by
  rwa [show (parser >>= fun tree => (Progress.complete tree).resume) = parser from
    bind_pure parser] at h

/-- In every place an expression begins with what the function for it reads. -/
theorem expression_reads (bound : Nat) (place : ExprPlace goal) :
    AgreeBelow bound (lookahead >>= fun token => (place.begin token).take)
      (expression bound >>= fun expr => (place.fill expr).resume) := by
  induction bound generalizing goal with
  | zero => exact fun _ h => absurd h (Nat.not_lt_zero _)
  | succ bound ih =>
      have hshrinks : ShrinksBelow bound (expression bound) := by
        apply shrinksBelow_of_agree (.expression .whole)
        rw [ParseState.parser_eq]
        exact AgreeBelow.whole (ih .whole)
      rw [lookahead_take place.isTaken_begin, expression, bind_assoc]
      apply ShrinksBelow.behind (shrinksBelow_next _) (Nat.le_refl _)
      intro token
      unfold ExprPlace.begin
      split
      · have hstep (operator : Token) : ((ParseState.operator place).step operator).IsTaken := by
          rw [ParseState.step]
          split <;> trivial
        rw [Progress.resume, ParseState.parser_eq, lookahead_take hstep, bind_assoc]
        apply ShrinksBelow.behind (shrinksBelow_next _) (Nat.le_succ _)
        intro operator
        rw [ParseState.step]
        split
        · rw [bind_assoc]
          exact itemsUntil_reads (fun before => .expression (.argument place operator before))
            (fun arguments => place.fill (.call operator arguments)) (fun _ _ => rfl)
            (fun _ => place.isTaken_fill _)
            (fun before => ih (.argument place operator before)) hshrinks (Nat.le_refl _) []
        · exact fun _ _ => rfl
      · split
        · rw [bind_assoc]
          exact itemsUntil_reads (fun before => .expression (.element place before))
            (fun elements => place.fill (.list elements)) (fun _ _ => rfl)
            (fun _ => place.isTaken_fill _)
            (fun before => ih (.element place before)) hshrinks (Nat.le_refl _) []
        · split <;> exact fun _ _ => rfl

/-- What a block needs of the function for its statements. -/
def ReadsStatements (bound : Nat) (parser : Parser Statement) : Prop :=
  ∀ ⦃goal : Goal⦄ (place : StatementPlace goal),
    AgreeBelow bound (lookahead >>= fun token => (place.begin token).take)
      (parser >>= fun statement => (place.fill statement).resume)

section

variable {bound : Nat} {item : Parser Statement}

theorem ReadsStatements.alone (h : ReadsStatements bound item) :
    AgreeBelow bound (ParseState.statement .whole).parser item := by
  rw [ParseState.parser_eq]
  exact AgreeBelow.whole (h .whole)

theorem ReadsStatements.members (h : ReadsStatements bound item) (place : BlockPlace goal) :
    AgreeBelow bound (ParseState.statement (.member place [])).parser
      (itemsUntil "\x7d" item bound >>= fun block => (place.fill block).resume) :=
  itemsUntil_reads (fun before => .statement (.member place before))
    (fun block => place.fill block) (fun _ _ => rfl) (fun _ => place.isTaken_fill _)
    (fun before => h (.member place before))
    (shrinksBelow_of_agree _ h.alone) (Nat.le_refl _) []

theorem ReadsStatements.compound (h : ReadsStatements bound item) (place : BlockPlace goal) :
    AgreeBelow (bound + 1) (ParseState.brace place).parser
      (compound item bound >>= fun block => (place.fill block).resume) := by
  rw [ParseState.parser_of_expectWord fun _ => rfl, Parser.compound, bind_assoc]
  exact (shrinksBelow_expect _ _ _).behind (Nat.le_refl _) fun _ => h.members place

theorem ReadsStatements.compound_alone (h : ReadsStatements bound item) :
    AgreeBelow (bound + 1) (ParseState.brace .whole).parser (Parser.compound item bound) :=
  AgreeBelow.whole (h.compound .whole)

/-- Behind the parenthesis that opens them the parameters are followed by the body. -/
theorem ReadsStatements.parameters (h : ReadsStatements bound item) (place : StatementPlace goal)
    (name : Token) :
    AgreeBelow bound (ParseState.parameter place name []).parser
      (itemsUntil ")" (expectIdentifier "Function parameter") bound >>= fun parameters =>
        Parser.compound item bound >>= fun body =>
          (place.fill (.func name parameters body)).resume) := by
  have hparameters := itemsUntil_reads (fun before => ParseState.parameter place name before)
    (fun parameters => .more (.brace (.functionBody place name parameters))) (fun _ _ => rfl)
    (fun _ => trivial) (fun before stream _ => congrFun (lookahead_expectName _ _) stream)
    (shrinksBelow_expectIdentifier bound "Function parameter") (Nat.le_refl _) []
  exact hparameters.trans <|
    (shrinksBelow_itemsUntil (shrinksBelow_expectIdentifier bound _)).behind
      (Nat.le_succ _) fun parameters =>
        (h.compound (.functionBody place name parameters)).of_le (Nat.le_succ _)

/-! ## Behind the word that announces a statement -/

/-- An expression that is not part of a list or of a call is read by the function for it. -/
theorem expression_reads_part (bound : Nat) {place : ExprPlace goal}
    (hplace : ∀ token, place.step token = place.begin token) :
    AgreeBelow bound (ParseState.expression place).parser
      (expression bound >>= fun expr => (place.fill expr).resume) := by
  rw [ParseState.parser_eq]
  simp only [ParseState.step, hplace]
  exact expression_reads bound place

theorem expression_reads_whole (bound : Nat) :
    AgreeBelow bound (ParseState.expression .whole).parser (expression bound) :=
  AgreeBelow.whole (expression_reads_part bound fun _ => rfl)

theorem shrinksBelow_expression (bound : Nat) : ShrinksBelow bound (expression bound) :=
  shrinksBelow_of_agree _ (expression_reads_whole bound)

theorem ReadsStatements.shrinksBelow_compound (h : ReadsStatements bound item) :
    ShrinksBelow bound (Parser.compound item bound) :=
  (shrinksBelow_of_agree _ h.compound_alone).of_le (Nat.le_succ _)

theorem ReadsStatements.ifElse (h : ReadsStatements bound item) (place : StatementPlace goal) :
    AgreeBelow bound (ParseState.expression (.ifCondition place)).parser
      (expression bound >>= fun condition =>
        Parser.compound item bound >>= fun thenBlock =>
          expect "else" "if statement" >>= fun _ =>
            Parser.compound item bound >>= fun elseBlock =>
              (place.fill (.ifElse condition thenBlock elseBlock)).resume) := by
  refine (expression_reads_part bound fun _ => rfl).trans ?_
  apply (shrinksBelow_expression bound).behind (Nat.le_succ _)
  intro condition
  refine ((h.compound (.thenBranch place condition)).of_le (Nat.le_succ _)).trans ?_
  apply h.shrinksBelow_compound.behind (Nat.le_succ _)
  intro thenBlock
  rw [BlockPlace.fill, Progress.resume, ParseState.parser_of_expectWord fun _ => rfl]
  exact (shrinksBelow_expect _ _ _).behind (Nat.le_succ _) fun _ =>
    (h.compound (.elseBranch place condition thenBlock)).of_le (Nat.le_succ _)

theorem ReadsStatements.while (h : ReadsStatements bound item) (place : StatementPlace goal) :
    AgreeBelow bound (ParseState.expression (.whileCondition place)).parser
      (expression bound >>= fun condition =>
        Parser.compound item bound >>= fun body => (place.fill (.while condition body)).resume) :=
  (expression_reads_part bound fun _ => rfl).trans <|
    (shrinksBelow_expression bound).behind (Nat.le_succ _) fun condition =>
      (h.compound (.whileBody place condition)).of_le (Nat.le_succ _)

theorem ReadsStatements.repeat (h : ReadsStatements bound item) (place : StatementPlace goal) :
    AgreeBelow bound (ParseState.expression (.repeatCount place)).parser
      (expression bound >>= fun count =>
        Parser.compound item bound >>= fun body => (place.fill (.repeat count body)).resume) :=
  (expression_reads_part bound fun _ => rfl).trans <|
    (shrinksBelow_expression bound).behind (Nat.le_succ _) fun count =>
      (h.compound (.repeatBody place count)).of_le (Nat.le_succ _)

theorem ReadsStatements.func (h : ReadsStatements bound item) (place : StatementPlace goal) :
    AgreeBelow bound (ParseState.functionName place).parser
      (expectIdentifier "Function name" >>= fun name =>
        expect "(" "function declaration" >>= fun _ =>
          itemsUntil ")" (expectIdentifier "Function parameter") bound >>= fun parameters =>
            Parser.compound item bound >>= fun body =>
              (place.fill (.func name parameters body)).resume) := by
  rw [ParseState.parser_eq]
  simp only [ParseState.step]
  rw [lookahead_expectName]
  apply (shrinksBelow_expectIdentifier _ _).behind (Nat.le_succ _)
  intro name
  rw [ParseState.parser_of_expectWord fun _ => rfl]
  exact (shrinksBelow_expect _ _ _).behind (Nat.le_succ _) fun _ => h.parameters place name

end

theorem assignment_reads (bound : Nat) (place : StatementPlace goal) :
    AgreeBelow (bound + 1) (next >>= fun target => (place.beginAssignment target).resume)
      (assignment bound >>= fun statement => (place.fill statement).resume) := by
  rw [assignment, bind_assoc]
  apply (shrinksBelow_next _).behind (Nat.le_refl _)
  intro target
  unfold StatementPlace.beginAssignment
  split
  · simp only [Progress.resume, bind_assoc, pure_bind]
    rw [ParseState.parser_of_expectWord fun _ => rfl]
    exact (shrinksBelow_expect _ _ _).behind (Nat.le_succ _) fun _ =>
      expression_reads_part bound fun _ => rfl
  · exact fun _ _ => rfl

/-- In every place a statement begins with what the function for it reads. -/
theorem statement_reads (bound : Nat) : ReadsStatements bound (statement bound) := by
  induction bound with
  | zero => exact fun _ _ _ h => absurd h (Nat.not_lt_zero _)
  | succ bound ih =>
      intro goal place
      rw [statement, bind_assoc]
      apply AgreeBelow.lookedAt
      intro token seen hseen hlook
      unfold StatementPlace.begin
      have hannounced {rest continued : Parser goal.Tree} (h : AgreeBelow bound rest continued) :
          (next >>= fun _ => rest) seen = (next >>= fun _ => continued) seen :=
        (shrinksBelow_next _).behind (Nat.le_refl _) (fun _ => h) seen hseen
      split
      case h_1 hspelling =>
        simp only [hspelling, bind_assoc, pure_bind]
        exact hannounced (expression_reads_part bound fun _ => rfl)
      case h_2 hspelling =>
        simp only [hspelling, bind_assoc, pure_bind]
        exact hannounced (ih.ifElse place)
      case h_3 hspelling =>
        simp only [hspelling, bind_assoc, pure_bind]
        exact hannounced (ih.while place)
      case h_4 hspelling =>
        simp only [hspelling, bind_assoc, pure_bind]
        exact hannounced (ih.repeat place)
      case h_5 hspelling =>
        simp only [hspelling, Parser.compound, bind_assoc, pure_bind]
        rw [expect_bind_of_spelling hlook hspelling]
        exact hannounced (ih.members (.statement place))
      case h_6 hspelling =>
        simp only [hspelling, functionDecl, bind_assoc, pure_bind]
        rw [expect_bind_of_spelling hlook hspelling]
        exact hannounced (ih.func place)
      case h_7 hspelling =>
        simp only [hspelling, bind_assoc, pure_bind]
        exact hannounced (expression_reads_part bound fun _ => rfl)
      case h_8 =>
        by_cases hkind : token.kind = .identifier
        · simp only [hkind, if_true]
          rw [← assignment_reads bound place seen hseen, bind_of_ok (next_of_ok hlook),
            StatementPlace.beginAssignment_of_identifier place hkind]
          exact bind_of_ok (next_of_ok hlook) _
        · simp only [hkind, if_false]
          rfl

/-- If the bound exceeds the size of the stream, the functions of the recursive descent read what
the parses read that keep the open constructs in a place: the same trees, with the same errors and
the same streams behind them. -/
theorem parse_descends {bound : Nat} {stream : TokenStream} (h : stream.size < bound) :
    expression bound stream = parseExpression stream ∧
      statement bound stream = parseStatement stream ∧
      compound (statement bound) bound stream = parseBlock stream :=
  ⟨(expression_reads_whole bound stream h).symm, ((statement_reads bound).alone stream h).symm,
    ((statement_reads bound).compound_alone stream (Nat.lt_succ_of_lt h)).symm⟩

end TinyScript
