import TinyScript.Text.Source
import TinyScript.Token.Lexeme

/-!
# Token streams

A stream hands out the tokens of a source one at a time. It loads a line only when the line before
is used up, so a source that is typed in is asked for no more than is needed. A token that has been
looked at stays pending until it is taken.
-/

namespace TinyScript

/-- Why a stream has no token to show. -/
inductive StreamError where
  | endOfInput
  /-- The next line is not valid UTF-8. It is lost, and reading may go on behind it. -/
  | undecodable
deriving DecidableEq, Repr

structure TokenStream where
  /-- The lines that have not been loaded. -/
  unread : Source
  /-- What is left of the loaded line. -/
  line : List Char := []
  /-- The token that has been looked at and not been taken. -/
  pending : Option Token := none
deriving DecidableEq

namespace TokenStream

def ofText (text : String) : TokenStream := ⟨.ofText text, [], none⟩

def ofBytes (bytes : List UInt8) : TokenStream := ⟨.ofBytes bytes, [], none⟩

/-- A bound on the number of tokens that are left. -/
def size (stream : TokenStream) : Nat :=
  stream.unread.size + stream.line.length + if stream.pending.isSome then 1 else 0

/-- Loads lines up to the next token and makes that token pending. -/
def load (line : List Char) (unread : Source) : Except StreamError Token × TokenStream :=
  match nextToken? line with
  | some (token, rest) => (.ok token, ⟨unread, rest, some token⟩)
  | none =>
    match unread with
    | [] => (.error .endOfInput, ⟨[], [], none⟩)
    | .text chars :: unread => load chars unread
    | .undecodable :: unread => (.error .undecodable, ⟨unread, [], none⟩)

/-- The next token, which is not taken. -/
def lookahead (stream : TokenStream) : Except StreamError Token × TokenStream :=
  match stream.pending with
  | some token => (.ok token, stream)
  | none => load stream.line stream.unread

/-- The stream without the token that has been looked at. -/
def advance (stream : TokenStream) : TokenStream :=
  { stream with pending := none }

/-- Takes the next token. -/
def next (stream : TokenStream) : Except StreamError Token × TokenStream :=
  match stream.lookahead with
  | (.ok token, stream) => (.ok token, stream.advance)
  | (.error e, stream) => (.error e, stream)

/-- Whether a token is left. -/
def hasNext (stream : TokenStream) : Except StreamError Bool × TokenStream :=
  match stream.lookahead with
  | (.ok _, stream) => (.ok true, stream)
  | (.error .endOfInput, stream) => (.ok false, stream)
  | (.error e, stream) => (.error e, stream)

/-! ## Progress -/

theorem size_advance_of_nextToken? {line rest : List Char} {token : Token} (unread : Source)
    (h : nextToken? line = some (token, rest)) :
    (advance ⟨unread, rest, some token⟩).size < unread.size + line.length := by
  have := length_of_nextToken? h
  simp [advance, size, this]

theorem size_of_load {line : List Char} {unread : Source} {token : Token}
    {stream : TokenStream} (h : load line unread = (.ok token, stream)) :
    stream.advance.size < unread.size + line.length := by
  induction unread generalizing line with
  | nil =>
      unfold load at h
      split at h
      · next hnext =>
          cases h
          exact size_advance_of_nextToken? _ hnext
      · simp at h
  | cons next unread ih =>
      unfold load at h
      split at h
      · next hnext =>
          cases h
          exact size_advance_of_nextToken? _ hnext
      · cases next with
        | text chars =>
            have := ih h
            simp only [Source.size_cons, Line.size]
            omega
        | undecodable => simp at h

/-- Taking a token leaves fewer. -/
theorem size_advance_lt {stream rest : TokenStream} {token : Token}
    (h : stream.lookahead = (.ok token, rest)) : rest.advance.size < stream.size := by
  unfold lookahead at h
  split at h
  · next hpending =>
      cases h
      simp [advance, size, hpending]
  · next hpending =>
      have hsize : stream.size = stream.unread.size + stream.line.length := by
        simp [size, hpending]
      rw [hsize]
      exact size_of_load h

theorem size_next_lt {stream rest : TokenStream} {token : Token}
    (h : stream.next = (.ok token, rest)) : rest.size < stream.size := by
  unfold next at h
  split at h
  · next hlook =>
      cases h
      exact size_advance_lt hlook
  · simp at h

private theorem size_load_le (line : List Char) (unread : Source) :
    (load line unread).2.size ≤ unread.size + line.length := by
  induction unread generalizing line with
  | nil =>
      unfold load
      split
      · next hnext =>
          have := length_of_nextToken? hnext
          simp only [size, Option.isSome_some, if_true]
          omega
      · simp [size]
  | cons next unread ih =>
      unfold load
      split
      · next hnext =>
          have := length_of_nextToken? hnext
          simp only [size, Option.isSome_some, if_true]
          omega
      · cases next with
        | text chars =>
            have := ih chars
            simp only [Source.size_cons, Line.size]
            omega
        | undecodable =>
            simp only [size, Source.size_cons]
            simp
            omega

/-- Looking ahead makes no tokens. -/
theorem size_lookahead_le (stream : TokenStream) : stream.lookahead.2.size ≤ stream.size := by
  unfold lookahead
  split
  · exact Nat.le_refl _
  · next hpending =>
      have hsize : stream.size = stream.unread.size + stream.line.length := by
        simp [size, hpending]
      rw [hsize]
      exact size_load_le _ _

theorem size_hasNext_le {stream rest : TokenStream} {found : Except StreamError Bool}
    (h : stream.hasNext = (found, rest)) : rest.size ≤ stream.size := by
  have hle := size_lookahead_le stream
  unfold hasNext at h
  split at h
  all_goals
    next hlook =>
      cases h
      rwa [hlook] at hle

/-- All tokens up to the end or the first unreadable line, with the error if there is one. -/
def drain (stream : TokenStream) : List Token × Option StreamError :=
  match h : stream.next with
  | (.ok token, rest) =>
    have := size_next_lt h
    let (tokens, error) := rest.drain
    (token :: tokens, error)
  | (.error .endOfInput, _) => ([], none)
  | (.error e, _) => ([], some e)
termination_by stream.size

end TokenStream

end TinyScript
