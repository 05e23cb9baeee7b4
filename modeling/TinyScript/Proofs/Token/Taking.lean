import TinyScript.Token.Stream

/-!
# Taking tokens

A stream is used up token by token. `Takes` says which tokens lie between two states of a stream,
and `drain` lists all that are left. The two are tied together by `Takes.drain_eq` and its converse
`exists_takes_of_drain`, so that a statement about the tokens of a source is a statement about what
can be taken from it.
-/

namespace TinyScript.TokenStream

/-- The second stream is what is left of the first when the tokens have been taken. -/
inductive Takes : TokenStream → List Token → TokenStream → Prop where
  | nil (stream : TokenStream) : Takes stream [] stream
  | cons {stream rest last : TokenStream} {token : Token} {tokens : List Token}
      (hnext : stream.next = (.ok token, rest)) (htail : Takes rest tokens last) :
      Takes stream (token :: tokens) last

/-- The streams that operations on a fresh stream lead to. Taking a token is looking ahead and then
advancing, and so are the other operations made of these two. -/
inductive Reachable : TokenStream → Prop where
  | start (source : Source) : Reachable ⟨source, [], none⟩
  | lookahead {stream : TokenStream} (h : Reachable stream) : Reachable stream.lookahead.2
  | advance {stream : TokenStream} (h : Reachable stream) : Reachable stream.advance

theorem next_of_lookahead {stream rest : TokenStream} {token : Token}
    (h : stream.lookahead = (.ok token, rest)) :
    stream.next = (.ok token, rest.advance) := by
  rw [next, h]

theorem lookahead_of_next {stream rest : TokenStream} {token : Token}
    (h : stream.next = (.ok token, rest)) :
    ∃ seen, stream.lookahead = (.ok token, seen) ∧ rest = seen.advance := by
  unfold next at h
  split at h
  · next seen hlook =>
      cases h
      exact ⟨seen, hlook, rfl⟩
  · simp at h

/-! ## Looking ahead -/

private theorem pending_of_load {line : List Char} {unread : Source} {token : Token}
    {stream : TokenStream} (h : load line unread = (.ok token, stream)) :
    stream.pending = some token := by
  induction unread generalizing line with
  | nil =>
      unfold load at h
      split at h
      · cases h; rfl
      · simp at h
  | cons next unread ih =>
      unfold load at h
      split at h
      · cases h; rfl
      · cases next with
        | text chars => exact ih h
        | undecodable => simp at h

theorem pending_of_lookahead {stream rest : TokenStream} {token : Token}
    (h : stream.lookahead = (.ok token, rest)) : rest.pending = some token := by
  unfold lookahead at h
  split at h
  · next hpending =>
      cases h
      exact hpending
  · exact pending_of_load h

/-- A token that has been looked at stays the next one. -/
theorem lookahead_lookahead {stream rest : TokenStream} {token : Token}
    (h : stream.lookahead = (.ok token, rest)) : rest.lookahead = (.ok token, rest) := by
  rw [lookahead, pending_of_lookahead h]

theorem next_lookahead {stream rest : TokenStream} {token : Token}
    (h : stream.lookahead = (.ok token, rest)) : rest.next = stream.next := by
  rw [next_of_lookahead h, next_of_lookahead (lookahead_lookahead h)]

/-! ## Draining -/

theorem drain_of_next {stream rest : TokenStream} {token : Token}
    (h : stream.next = (.ok token, rest)) :
    stream.drain = (token :: rest.drain.1, rest.drain.2) := by
  rw [drain]
  split
  · next hnext =>
      rw [h] at hnext
      cases hnext
      rfl
  · next hnext => simp [h] at hnext
  · next hnext => simp [h] at hnext

theorem drain_of_next_end {stream rest : TokenStream}
    (h : stream.next = (.error .endOfInput, rest)) : stream.drain = ([], none) := by
  rw [drain]
  split
  · next hnext => simp [h] at hnext
  · rfl
  · next hne hnext =>
      rw [h] at hnext
      cases hnext
      exact (hne rfl).elim

theorem drain_of_next_undecodable {stream rest : TokenStream}
    (h : stream.next = (.error .undecodable, rest)) :
    stream.drain = ([], some .undecodable) := by
  rw [drain]
  split
  · next hnext => simp [h] at hnext
  · next hnext => simp [h] at hnext
  · next hnext =>
      rw [h] at hnext
      cases hnext
      rfl

/-- What is left of a stream depends on its next token and on what is left behind it. -/
theorem drain_congr {stream other : TokenStream} (h : stream.next = other.next) :
    stream.drain = other.drain := by
  rcases hnext : other.next with ⟨_ | token, rest⟩
  · next error =>
      rw [hnext] at h
      cases error with
      | endOfInput => rw [drain_of_next_end h, drain_of_next_end hnext]
      | undecodable => rw [drain_of_next_undecodable h, drain_of_next_undecodable hnext]
  · rw [hnext] at h
    rw [drain_of_next h, drain_of_next hnext]

theorem exists_next_of_drain {stream : TokenStream} {token : Token} {tokens : List Token}
    {error : Option StreamError} (h : stream.drain = (token :: tokens, error)) :
    ∃ rest, stream.next = (.ok token, rest) ∧ rest.drain = (tokens, error) := by
  rcases hnext : stream.next with ⟨_ | first, rest⟩
  · next cause =>
      cases cause with
      | endOfInput => simp [drain_of_next_end hnext] at h
      | undecodable => simp [drain_of_next_undecodable hnext] at h
  · rw [drain_of_next hnext] at h
    simp only [Prod.mk.injEq, List.cons.injEq] at h
    obtain ⟨⟨rfl, htokens⟩, herror⟩ := h
    exact ⟨rest, rfl, Prod.ext htokens herror⟩

theorem next_of_drain_nil {stream : TokenStream} (h : stream.drain = ([], none)) :
    ∃ rest, stream.next = (.error .endOfInput, rest) := by
  rcases hnext : stream.next with ⟨error | token, rest⟩
  · cases error with
    | endOfInput => exact ⟨rest, rfl⟩
    | undecodable => simp [drain_of_next_undecodable hnext] at h
  · simp [drain_of_next hnext] at h

theorem hasNext_of_drain_nil {stream : TokenStream} (h : stream.drain = ([], none)) :
    ∃ rest, stream.hasNext = (.ok false, rest) := by
  rcases hlook : stream.lookahead with ⟨_ | token, rest⟩
  · next error =>
      have hnext : stream.next = (.error error, rest) := by rw [next, hlook]
      cases error with
      | endOfInput => exact ⟨rest, by rw [hasNext, hlook]⟩
      | undecodable => simp [drain_of_next_undecodable hnext] at h
  · simp [drain_of_next (next_of_lookahead hlook)] at h

/-- Asking for a token that is left loses nothing. -/
theorem hasNext_of_drain_cons {stream : TokenStream} {token : Token} {tokens : List Token}
    {error : Option StreamError} (h : stream.drain = (token :: tokens, error)) :
    ∃ seen, stream.hasNext = (.ok true, seen) ∧ seen.drain = (token :: tokens, error) := by
  obtain ⟨rest, hnext, _⟩ := exists_next_of_drain h
  obtain ⟨seen, hlook, _⟩ := lookahead_of_next hnext
  exact ⟨seen, by rw [hasNext, hlook], (drain_congr (next_lookahead hlook)).trans h⟩

/-! ## Taking -/

/-- Taking tokens removes them from the front of what is left. -/
theorem Takes.drain_eq {stream rest : TokenStream} {tokens : List Token}
    (h : stream.Takes tokens rest) :
    stream.drain = (tokens ++ rest.drain.1, rest.drain.2) := by
  induction h with
  | nil => rfl
  | cons hnext _ ih => rw [drain_of_next hnext, ih]; rfl

theorem exists_takes_of_drain {stream : TokenStream} {tokens more : List Token}
    {error : Option StreamError} (h : stream.drain = (tokens ++ more, error)) :
    ∃ rest, stream.Takes tokens rest ∧ rest.drain = (more, error) := by
  induction tokens generalizing stream with
  | nil => exact ⟨stream, .nil stream, h⟩
  | cons token tokens ih =>
      obtain ⟨middle, hnext, hmiddle⟩ := exists_next_of_drain h
      obtain ⟨rest, htakes, hrest⟩ := ih hmiddle
      exact ⟨rest, .cons hnext htakes, hrest⟩

/-- The tokens between two states of a stream are determined by these states. -/
theorem Takes.unique {stream rest : TokenStream} {tokens others : List Token}
    (h : stream.Takes tokens rest) (hothers : stream.Takes others rest) : tokens = others := by
  have hdrain := h.drain_eq.symm.trans hothers.drain_eq
  simpa using hdrain

theorem Reachable.next {stream rest : TokenStream} {token : Token} (h : stream.Reachable)
    (hnext : stream.next = (.ok token, rest)) : rest.Reachable := by
  obtain ⟨seen, hlook, rfl⟩ := lookahead_of_next hnext
  have hseen := h.lookahead
  rw [hlook] at hseen
  exact hseen.advance

end TinyScript.TokenStream
