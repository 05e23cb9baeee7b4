import TinyScript.Proofs.Token.Cutting

/-!
# A stream is a cursor

A source is a sequence of events: its tokens, line by line, and in place of each line that cannot be
decoded one event that says so. A stream keeps what it has not handed out in three places, which are
the token it has shown, the rest of the line it has loaded and the lines it has not. To whoever asks
it, in any order, it is a cursor on the events (`stream_is_cursor`).
-/

namespace TinyScript

/-- What a reader of a source meets. -/
inductive Event where
  | token (token : Token)
  | unreadable
deriving DecidableEq

/-- The events of a line. -/
def Event.ofLine (bytes : List UInt8) : List Event :=
  match String.fromUTF8? ⟨bytes.toArray⟩ with
  | some text => (tokensOf text.toList).map .token
  | none => [.unreadable]

/-- The events of a source, whose lines end behind each line feed. -/
def Event.ofBytes (bytes : List UInt8) : List Event :=
  (Text.splitLines (· == 0x0A) bytes).flatMap Event.ofLine

/-- What a stream may be asked. -/
inductive Request where
  | hasNext | lookahead | next
deriving DecidableEq

inductive Reply where
  | answer (found : Bool)
  | token (token : Token)
  | failure (error : StreamError)
deriving DecidableEq

def Reply.of {α : Type} (wrap : α → Reply) : Except StreamError α → Reply
  | .ok result => wrap result
  | .error error => .failure error

namespace Request

def askStream : Request → TokenStream → Reply × TokenStream
  | hasNext, stream => stream.hasNext.map (.of .answer) id
  | lookahead, stream => stream.lookahead.map (.of .token) id
  | next, stream => stream.next.map (.of .token) id

/-- Asks a cursor, given by the events from where it stands. An unreadable line fails whatever is
asked, and is behind the cursor then. -/
def askCursor : Request → List Event → Reply × List Event
  | _, .unreadable :: events => (.failure .undecodable, events)
  | hasNext, .token token :: events => (.answer true, .token token :: events)
  | lookahead, .token token :: events => (.token token, .token token :: events)
  | next, .token token :: events => (.token token, events)
  | hasNext, [] => (.answer false, [])
  | _, [] => (.failure .endOfInput, [])

/-- The events that are used up where a request gets this reply. -/
def consumed : Request → Reply → List Event
  | next, .token token => [.token token]
  | _, .failure .undecodable => [.unreadable]
  | _, _ => []

/-- Asks one request after the other. -/
def askAll {State : Type} (ask : Request → State → Reply × State) :
    List Request → State → List Reply × State
  | [], state => ([], state)
  | request :: requests, state =>
    let (reply, state) := ask request state
    let (replies, state) := askAll ask requests state
    (reply :: replies, state)

end Request

/-! ## What a stream still holds -/

def Line.events : Line → List Event
  | .text chars => (tokensOf chars).map .token
  | .undecodable => [.unreadable]

/-- The events that a stream has not handed out. -/
def TokenStream.events (stream : TokenStream) : List Event :=
  (stream.pending.toList ++ tokensOf stream.line).map .token ++ stream.unread.flatMap Line.events

theorem Event.ofLine_eq (bytes : List UInt8) : ofLine bytes = (Source.decodeLine bytes).events := by
  unfold ofLine Source.decodeLine
  cases String.fromUTF8? ⟨bytes.toArray⟩ <;> rfl

theorem TokenStream.events_ofBytes (bytes : List UInt8) :
    (ofBytes bytes).events = Event.ofBytes bytes := by
  have hlines : Event.ofLine = fun line => (Source.decodeLine line).events :=
    funext Event.ofLine_eq
  rw [Event.ofBytes, hlines, events]
  simp [ofBytes, Source.ofBytes, List.flatMap_map]

/-! ## One request -/

/-- A look at the next event: what it finds, and what is left behind it. -/
inductive TokenStream.Shows : List Event → Except StreamError Token × TokenStream → Prop where
  | token {token : Token} {events : List Event} {seen : TokenStream}
      (hpending : seen.pending = some token) (hrest : seen.advance.events = events) :
      Shows (.token token :: events) (.ok token, seen)
  | unreadable {events : List Event} {rest : TokenStream} (hrest : rest.events = events) :
      Shows (.unreadable :: events) (.error .undecodable, rest)
  | finished {rest : TokenStream} (hrest : rest.events = []) :
      Shows [] (.error .endOfInput, rest)

namespace TokenStream

theorem events_of_pending {stream : TokenStream} {token : Token}
    (h : stream.pending = some token) : stream.events = .token token :: stream.advance.events := by
  simp [events, advance, h]

private theorem shows_load (line : List Char) (unread : Source) :
    Shows (events ⟨unread, line, none⟩) (load line unread) := by
  induction unread generalizing line with
  | nil =>
      unfold load
      rcases hnext : nextToken? line with _ | ⟨token, rest⟩
      · simp only [events, tokensOf_of_none hnext]
        exact .finished (by simp [events])
      · simp only [events, tokensOf_of_some hnext]
        exact .token rfl rfl
  | cons first unread ih =>
      unfold load
      rcases hnext : nextToken? line with _ | ⟨token, rest⟩
      · have hline : events ⟨first :: unread, line, none⟩ =
            first.events ++ unread.flatMap Line.events := by
          simp [events, tokensOf_of_none hnext]
        rw [hline]
        cases first with
        | text chars => exact ih chars
        | undecodable => exact .unreadable (by simp [events])
      · simp only [events, tokensOf_of_some hnext]
        exact .token rfl rfl

theorem shows_lookahead (stream : TokenStream) : Shows stream.events stream.lookahead := by
  unfold lookahead
  split
  · next token hpending =>
      rw [events_of_pending hpending]
      exact .token hpending rfl
  · next hpending =>
      have hloaded := shows_load stream.line stream.unread
      rwa [← hpending] at hloaded

end TokenStream

/-- A stream and a cursor on its events reply the same, and stand at the same events then. -/
theorem Request.askStream_eq (request : Request) (stream : TokenStream) :
    (request.askStream stream).map id TokenStream.events = request.askCursor stream.events := by
  have hshows := stream.shows_lookahead
  generalize hevents : stream.events = events at hshows
  generalize hlook : stream.lookahead = shown at hshows
  cases hshows with
  | token hpending hrest =>
      have hseen := TokenStream.events_of_pending hpending
      rw [hrest] at hseen
      cases request with
      | hasNext => simp [askStream, askCursor, TokenStream.hasNext, hlook, Reply.of, hseen]
      | lookahead => simp [askStream, askCursor, hlook, Reply.of, hseen]
      | next => simp [askStream, askCursor, TokenStream.next, hlook, Reply.of, hrest]
  | unreadable hrest =>
      cases request <;>
        simp [askStream, askCursor, TokenStream.hasNext, TokenStream.next, hlook, Reply.of, hrest]
  | finished hrest =>
      cases request <;>
        simp [askStream, askCursor, TokenStream.hasNext, TokenStream.next, hlook, Reply.of, hrest]

/-! ## Many requests -/

namespace Request

/-- What is asked in the same way of two kinds of states is asked so again and again. -/
theorem askAll_map {State View : Type} {ask : Request → State → Reply × State}
    {askView : Request → View → Reply × View} {view : State → View}
    (h : ∀ request state, (ask request state).map id view = askView request (view state))
    (requests : List Request) (state : State) :
    (askAll ask requests state).map id view = askAll askView requests (view state) := by
  induction requests generalizing state with
  | nil => rfl
  | cons request requests ih =>
      simp only [askAll]
      rw [← h request state]
      simp only [Prod.map_fst, Prod.map_snd, id]
      rw [← ih]
      rfl

/-- A cursor passes the events that its replies use up, and no others. -/
theorem consumed_append_askCursor (request : Request) (events : List Event) :
    request.consumed (request.askCursor events).1 ++ (request.askCursor events).2 = events := by
  cases events with
  | nil => cases request <;> rfl
  | cons event events => cases event <;> cases request <;> rfl

theorem consumed_append_askAll (requests : List Request) (events : List Event) :
    (List.zipWith consumed requests (askAll askCursor requests events).1).flatten ++
      (askAll askCursor requests events).2 = events := by
  induction requests generalizing events with
  | nil => rfl
  | cons request requests ih =>
      simp only [askAll, List.zipWith_cons_cons, List.flatten_cons]
      rw [List.append_assoc, ih, consumed_append_askCursor]

theorem length_askCursor_le (request : Request) (events : List Event) :
    (request.askCursor events).2.length ≤
      events.length - if request = next then 1 else 0 := by
  cases events with
  | nil => cases request <;> simp [askCursor]
  | cons event events => cases event <;> cases request <;> simp [askCursor]

/-- Each request for the next token passes an event, so that in the end all are passed. -/
theorem length_askAll_le (requests : List Request) (events : List Event) :
    (askAll askCursor requests events).2.length ≤ events.length - requests.count next := by
  induction requests generalizing events with
  | nil => simp [askAll]
  | cons request requests ih =>
      have hfirst := length_askCursor_le request events
      have hrest := ih (request.askCursor events).2
      simp only [askAll, List.count_cons, beq_iff_eq]
      omega

theorem mem_of_token_askCursor {request : Request} {events : List Event} {token : Token}
    (h : (request.askCursor events).1 = .token token) : .token token ∈ events := by
  cases events with
  | nil => cases request <;> cases h
  | cons event events =>
      cases event with
      | unreadable => cases request <;> cases h
      | token first =>
          cases request with
          | hasNext => cases h
          | lookahead =>
              cases h
              exact List.mem_cons_self
          | next =>
              cases h
              exact List.mem_cons_self

theorem mem_of_token_mem_askAll {requests : List Request} {events : List Event} {token : Token}
    (h : .token token ∈ (askAll askCursor requests events).1) : .token token ∈ events := by
  induction requests generalizing events with
  | nil => cases h
  | cons request requests ih =>
      rcases List.mem_cons.1 h with hfirst | hrest
      · exact mem_of_token_askCursor hfirst.symm
      · rw [← consumed_append_askCursor request events]
        exact List.mem_append_right _ (ih hrest)

end Request

/-! ## Tokens are not empty -/

theorem spelling_ne_empty_of_nextToken? {text rest : List Char} {token : Token}
    (h : nextToken? text = some (token, rest)) : token.spelling ≠ "" := by
  unfold nextToken? at h
  split at h
  · simp at h
  · next c chars _ =>
      simp only [Option.some.injEq, Prod.mk.injEq] at h
      rw [← h.1, ne_eq, String.ofList_eq_empty_iff]
      exact Lexeme.first_ne_nil c chars

theorem spelling_ne_empty_of_mem_tokensOf {text : List Char} {token : Token}
    (h : token ∈ tokensOf text) : token.spelling ≠ "" := by
  fun_induction tokensOf text with
  | case1 => cases h
  | case2 text first rest hsome _ ih =>
      rcases List.mem_cons.1 h with rfl | hrest
      · exact spelling_ne_empty_of_nextToken? hsome
      · exact ih hrest

theorem Event.spelling_ne_empty {bytes : List UInt8} {token : Token}
    (h : .token token ∈ Event.ofBytes bytes) : token.spelling ≠ "" := by
  obtain ⟨line, _, hline⟩ := List.mem_flatMap.1 h
  unfold ofLine at hline
  split at hline
  · next text _ =>
      obtain ⟨other, hother, heq⟩ := List.mem_map.1 hline
      cases heq
      exact spelling_ne_empty_of_mem_tokensOf hother
  · simp at hline

/-- Whatever a stream is asked and in which order, it replies as a cursor on the events of its
source and stands where the cursor stands. The events before are those that its replies have used
up, each once and in order; requests for the next token use up all; and no token is empty. -/
theorem stream_is_cursor (bytes : List UInt8) (requests : List Request) :
    let stream := Request.askAll Request.askStream requests (.ofBytes bytes)
    let cursor := Request.askAll Request.askCursor requests (Event.ofBytes bytes)
    stream.1 = cursor.1 ∧ stream.2.events = cursor.2 ∧
      (List.zipWith Request.consumed requests stream.1).flatten ++ cursor.2 =
        Event.ofBytes bytes ∧
      ((Event.ofBytes bytes).length ≤ requests.count .next → cursor.2 = []) ∧
      ∀ token, .token token ∈ stream.1 → token.spelling ≠ "" := by
  intro stream cursor
  have hsame : stream.map id TokenStream.events = cursor := by
    rw [Request.askAll_map Request.askStream_eq, TokenStream.events_ofBytes]
  have hreplies : stream.1 = cursor.1 := congrArg Prod.fst hsame
  refine ⟨hreplies, congrArg Prod.snd hsame, ?_, ?_, ?_⟩
  · rw [hreplies]
    exact Request.consumed_append_askAll requests _
  · intro hcount
    have hlength : cursor.2.length ≤ (Event.ofBytes bytes).length - requests.count .next :=
      Request.length_askAll_le requests _
    exact List.length_eq_zero_iff.1 (by omega)
  · intro token htoken
    rw [hreplies] at htoken
    exact Event.spelling_ne_empty (Request.mem_of_token_mem_askAll htoken)

/-- Three lines, of which the second is not UTF-8. -/
def brokenSource : List UInt8 :=
  [0x61, 0x20, 0x28, 0x0A, 0xFF, 0x0A, 0x20, 0x62]

theorem broken_line_reported_once :
    let requests : List Request :=
      [.lookahead, .next, .hasNext, .next, .hasNext, .hasNext, .next, .hasNext, .next]
    let stream := Request.askAll Request.askStream requests (.ofBytes brokenSource)
    stream.1 = [.token ⟨"a"⟩, .token ⟨"a"⟩, .answer true, .token ⟨"("⟩, .failure .undecodable,
        .answer true, .token ⟨"b"⟩, .answer false, .failure .endOfInput] ∧
      stream.2.events = [] := by
  intro requests stream
  obtain ⟨hreplies, hleft, -, hall, -⟩ := stream_is_cursor brokenSource requests
  refine ⟨hreplies.trans (by decide +kernel), hleft.trans (hall (by decide +kernel))⟩

end TinyScript
