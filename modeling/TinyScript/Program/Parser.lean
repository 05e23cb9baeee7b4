import TinyScript.Program.Place
import TinyScript.Token.Stream

/-!
# Parsing

A parse takes tokens from a stream until its tree is complete or a token is wrong. The stream that
is left holds everything behind the last token taken. One function for each construct of the grammar
would read the same (`parse_descends`).
-/

namespace TinyScript

/-- The error of a parse whose stream has no further token. -/
def StreamError.toError : StreamError → Error
  | .endOfInput => .parsing .unexpectedEnd
  | .undecodable => .channel .undecodable

/-- The result of a parse, with the stream behind it. -/
abbrev Parsed (α : Type) := Except Error α × TokenStream

def ParseState.run {goal : Goal} (state : ParseState goal) (stream : TokenStream) :
    Parsed goal.Tree :=
  match h : stream.lookahead with
  | (.error e, rest) => (.error e.toError, rest)
  | (.ok token, rest) =>
    match state.step token with
    | .more next =>
      have := TokenStream.size_advance_lt h
      next.run rest.advance
    | .complete tree => (.ok tree, rest.advance)
    | .reject e => (.error (.parsing e), rest.advance)
    | .refuse e => (.error (.parsing e), rest)
termination_by stream.size

def parseStatement (stream : TokenStream) : Parsed Statement :=
  let start : ParseState .statement := .statement .whole
  start.run stream

def parseExpression (stream : TokenStream) : Parsed Expr :=
  let start : ParseState .expression := .expression .whole
  start.run stream

def parseBlock (stream : TokenStream) : Parsed Block :=
  let start : ParseState .block := .brace .whole
  start.run stream

/-- A tree takes at least one token. -/
theorem ParseState.size_of_run {goal : Goal} {state : ParseState goal}
    {stream rest : TokenStream} {tree : goal.Tree} (h : state.run stream = (.ok tree, rest)) :
    rest.size < stream.size := by
  fun_induction ParseState.run state stream with
  | case1 => simp at h
  | case2 state stream token next hlook _ _ hlt ih =>
      exact Nat.lt_trans (ih h) hlt
  | case3 state stream token next hlook =>
      cases h
      exact TokenStream.size_advance_lt hlook
  | case4 => simp at h
  | case5 => simp at h

end TinyScript
