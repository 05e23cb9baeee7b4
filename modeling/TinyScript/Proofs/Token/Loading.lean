import TinyScript.Proofs.Token.Cursor

/-!
# What is used up, and what is loaded for it

Between two states of a stream, tokens have been used up (`Consumes`) and lines have been loaded. A
line is loaded only where nothing is left of the line before and a token is asked for, so the last
line that was loaded has the last of the tokens on it (`Takes.exists_loads`). The lines behind it
have no influence: with others in their place the stream does the same and leaves those others
(`lookahead_cases`, `askStream_cases`).
-/

namespace TinyScript.TokenStream

variable {stream seen rest : TokenStream} {token : Token} {tokens others : List Token}

/-! ## Tokens that have been used up -/

/-- From the one state of the stream to the other the tokens have been used up, and nothing else. -/
def Consumes (stream : TokenStream) (tokens : List Token) (rest : TokenStream) : Prop :=
  stream.events = tokens.map .token ++ rest.events

theorem events_of_lookahead (h : stream.lookahead = (.ok token, seen)) :
    stream.events = .token token :: seen.advance.events := by
  have hshows := stream.shows_lookahead
  rw [h] at hshows
  generalize stream.events = events at hshows
  cases hshows with
  | token _ hrest => rw [hrest]

/-- A look at the next token uses up nothing. -/
theorem events_lookahead (h : stream.lookahead = (.ok token, seen)) :
    seen.events = stream.events := by
  rw [events_of_pending (pending_of_lookahead h), events_of_lookahead h]

theorem Takes.consumes (h : stream.Takes tokens rest) : stream.Consumes tokens rest := by
  induction h with
  | nil => rfl
  | cons hnext _ ih =>
      obtain ⟨seen, hlook, rfl⟩ := lookahead_of_next hnext
      rw [Consumes, events_of_lookahead hlook, ih]
      rfl

/-- Which tokens have been used up is determined by the two states. -/
theorem Consumes.unique (h : stream.Consumes tokens rest) (hothers : stream.Consumes others rest) :
    tokens = others := by
  have hmap := List.append_cancel_right (h.symm.trans hothers)
  exact (List.map_inj_right fun _ _ => Event.token.inj).1 hmap

theorem Consumes.append (h : stream.Consumes tokens seen) (hnext : seen.Consumes others rest) :
    stream.Consumes (tokens ++ others) rest := by
  rw [Consumes, h, hnext, List.map_append, List.append_assoc]

theorem Consumes.length_events (h : stream.Consumes tokens rest) :
    stream.events.length = tokens.length + rest.events.length := by
  rw [h, List.length_append, List.length_map]

/-! ## Other lines behind those that are loaded -/

/-- The tokens that are left of what has been loaded. -/
def buffered (stream : TokenStream) : List Token :=
  stream.pending.toList ++ tokensOf stream.line

/-- The stream with other lines to load. -/
def withUnread (stream : TokenStream) (unread : Source) : TokenStream :=
  { stream with unread := unread }

@[simp] theorem advance_withUnread (stream : TokenStream) (unread : Source) :
    (stream.withUnread unread).advance = stream.advance.withUnread unread := rfl

@[simp] theorem unread_advance (stream : TokenStream) : stream.advance.unread = stream.unread := rfl

/-- The stream that has nothing left. -/
def ended : TokenStream := ⟨[], [], none⟩

variable {Result : Type} {act : TokenStream → Result × TokenStream} {result : Result}
  {line : List Char} {loaded unread : Source}

/-- Of the lines that have not been loaded, the first are loaded, and the others have no influence:
whichever they are, the result is the same and they are left. -/
structure Reads (act : TokenStream → Result × TokenStream) (stream : TokenStream)
    (loaded : Source) (result : Result) (rest : TokenStream) : Prop where
  unread : stream.unread = loaded ++ rest.unread
  any_behind (others : Source) :
    act (stream.withUnread (loaded ++ others)) = (result, rest.withUnread others)

theorem Reads.eq (h : Reads act stream loaded result rest) : act stream = (result, rest) := by
  have hsame := h.any_behind rest.unread
  rwa [← h.unread] at hsame

/-! ## A look at the next token -/

theorem load_of_some {chars : List Char} (h : nextToken? line = some (token, chars))
    (unread : Source) : load line unread = (.ok token, ⟨unread, chars, some token⟩) := by
  rw [load.eq_def, h]

theorem load_nil (h : nextToken? line = none) : load line [] = (.error .endOfInput, ended) := by
  rw [load, h]
  rfl

theorem load_text (h : nextToken? line = none) (chars : List Char) (unread : Source) :
    load line (.text chars :: unread) = load chars unread := by
  rw [load, h]

theorem load_undecodable (h : nextToken? line = none) (unread : Source) :
    load line (.undecodable :: unread) = (.error .undecodable, ⟨unread, [], none⟩) := by
  rw [load, h]

/-- What was left of the loaded line, and the lines loaded behind it, hold the tokens that have been
used up and what is left of the last line. -/
theorem Consumes.buffered (h : stream.Consumes tokens rest)
    (hunread : stream.unread = loaded ++ rest.unread) :
    stream.buffered.map .token ++ loaded.flatMap Line.events =
      (tokens ++ rest.buffered).map .token := by
  have hevents : stream.buffered.map .token ++ stream.unread.flatMap Line.events =
      tokens.map .token ++ (rest.buffered.map .token ++ rest.unread.flatMap Line.events) := h
  rw [hunread, List.flatMap_append, ← List.append_assoc, ← List.append_assoc,
    ← List.map_append] at hevents
  exact List.append_cancel_right hevents

/-- A search for the next token comes to the end or stops in a line. If it finds the token, it has
loaded nothing behind the line that starts with this token. -/
private theorem load_cases (line : List Char) (unread : Source) :
    load line unread = (.error .endOfInput, ended) ∨
      ∃ loaded result rest, Reads lookahead ⟨unread, line, none⟩ loaded result rest ∧
        ∀ token, result = .ok token →
          ∀ last ∈ loaded.getLast?, last.events = rest.buffered.map .token := by
  induction unread generalizing line with
  | nil =>
      rcases hnext : nextToken? line with _ | ⟨token, chars⟩
      · exact .inl (load_nil hnext)
      · exact .inr ⟨[], _, ⟨[], chars, some token⟩, ⟨rfl, load_of_some hnext⟩, by simp⟩
  | cons first unread ih =>
      rcases hnext : nextToken? line with _ | ⟨token, chars⟩
      · cases first with
        | text chars =>
            rcases ih chars with hend | ⟨loaded, result, rest, hreads, hlast⟩
            · exact .inl (by rw [load_text hnext, hend])
            · refine .inr ⟨.text chars :: loaded, result, rest, ⟨?_, fun others => ?_⟩, ?_⟩
              · rw [List.cons_append, ← hreads.unread]
              · exact (load_text hnext chars _).trans (hreads.any_behind others)
              · rintro token rfl last hmem
                cases loaded with
                | nil =>
                    cases hmem
                    have hconsumes : Consumes ⟨unread, chars, none⟩ [] rest :=
                      (events_lookahead hreads.eq).symm
                    simpa [buffered, Line.events] using hconsumes.buffered hreads.unread
                | cons => exact hlast token rfl last (by simpa using hmem)
        | undecodable =>
            exact .inr ⟨[.undecodable], _, ⟨unread, [], none⟩,
              ⟨rfl, load_undecodable hnext⟩, by simp⟩
      · exact .inr ⟨[], _, ⟨first :: unread, chars, some token⟩,
          ⟨rfl, load_of_some hnext⟩, by simp⟩

/-- A look at the next token comes to the end, or has loaded nothing behind the line that it stops
in. -/
theorem lookahead_cases (stream : TokenStream) :
    stream.lookahead = (.error .endOfInput, ended) ∨
      ∃ loaded result rest, Reads lookahead stream loaded result rest ∧
        ∀ token, result = .ok token →
          ∀ last ∈ loaded.getLast?, last.events = rest.buffered.map .token := by
  obtain ⟨unread, line, pending⟩ := stream
  cases pending with
  | some token => exact .inr ⟨[], _, _, ⟨rfl, fun _ => rfl⟩, by simp⟩
  | none => exact load_cases line unread

theorem reads_of_lookahead (h : stream.lookahead = (.ok token, seen)) :
    ∃ loaded, Reads lookahead stream loaded (.ok token) seen ∧
      ∀ last ∈ loaded.getLast?, last.events = seen.buffered.map .token := by
  rcases stream.lookahead_cases with hend | ⟨loaded, result, rest, hreads, hlast⟩
  · simp [h] at hend
  · obtain ⟨rfl, rfl⟩ := Prod.mk.inj (h.symm.trans hreads.eq)
    exact ⟨loaded, hreads, hlast token rfl⟩

theorem lookahead_ended : ended.lookahead = (.error .endOfInput, ended) := rfl

/-! ## Lines that are loaded for tokens -/

/-- The tokens have been taken, and for them the lines have been loaded. -/
structure Loads (stream : TokenStream) (tokens : List Token) (loaded : Source)
    (rest : TokenStream) : Prop where
  unread : stream.unread = loaded ++ rest.unread
  /-- The tokens come from what was left of the line before and from the lines loaded. -/
  held : stream.buffered.map .token ++ loaded.flatMap Line.events =
    (tokens ++ rest.buffered).map .token
  /-- The last of the tokens is on the last of the lines. -/
  last : ∀ line ∈ loaded.getLast?, ∃ late, late ≠ [] ∧ late <:+ tokens ∧
    line.events = (late ++ rest.buffered).map .token

theorem Loads.refl (stream : TokenStream) : stream.Loads [] [] stream where
  unread := rfl
  held := by simp
  last := by simp

/-- A line is loaded only if the tokens go on behind what was left of the line before. -/
theorem Loads.nil_iff (h : stream.Loads tokens loaded rest) :
    loaded = [] ↔ tokens.length ≤ stream.buffered.length := by
  have hlength := congrArg List.length h.held
  simp only [List.length_append, List.length_map] at hlength
  constructor
  · rintro rfl
    simp only [List.flatMap_nil, List.length_nil, Nat.add_zero] at hlength
    omega
  · intro hle
    rcases List.eq_nil_or_concat loaded with hnil | ⟨lines, line, rfl⟩
    · exact hnil
    · obtain ⟨late, hne, -, hline⟩ := h.last line (by simp)
      have hlate : 0 < late.length := List.length_pos_iff.2 hne
      simp only [List.concat_eq_append, List.flatMap_append, List.flatMap_cons, List.flatMap_nil,
        hline, List.length_append, List.length_map, List.length_nil] at hlength
      omega

theorem Loads.cons {middle : TokenStream} {more : Source} (h : stream.Loads [token] loaded middle)
    (hmore : middle.Loads tokens more rest) :
    stream.Loads (token :: tokens) (loaded ++ more) rest where
  unread := by rw [h.unread, hmore.unread, List.append_assoc]
  held := by
    rw [List.flatMap_append, ← List.append_assoc, h.held, List.map_append, List.append_assoc,
      hmore.held, ← List.map_append]
    rfl
  last line hline := by
    cases more with
    | cons =>
        obtain ⟨late, hne, hsuffix, hevents⟩ := hmore.last line (by simpa using hline)
        exact ⟨late, hne, hsuffix.trans (List.suffix_cons token tokens), hevents⟩
    | nil =>
        -- Nothing was loaded any more, so the other tokens were on the same line.
        obtain ⟨late, hne, hsuffix, hevents⟩ := h.last line (by simpa using hline)
        have hheld := hmore.held
        rw [List.flatMap_nil, List.append_nil] at hheld
        obtain ⟨front, hfront⟩ := hsuffix
        refine ⟨late ++ tokens, by simp [hne], ⟨front, ?_⟩, ?_⟩
        · rw [← List.append_assoc, hfront, List.singleton_append]
        · rw [hevents, List.map_append, hheld, ← List.map_append, List.append_assoc]

theorem loads_next (h : stream.next = (.ok token, rest)) :
    ∃ loaded, stream.Loads [token] loaded rest := by
  obtain ⟨seen, hlook, rfl⟩ := lookahead_of_next h
  obtain ⟨loaded, hreads, hlast⟩ := reads_of_lookahead hlook
  have hbuffered : seen.buffered = token :: seen.advance.buffered := by
    rw [buffered, pending_of_lookahead hlook]
    rfl
  have hconsumes : stream.Consumes [token] seen.advance := events_of_lookahead hlook
  refine ⟨loaded, hreads.unread, hconsumes.buffered hreads.unread, fun line hline => ?_⟩
  refine ⟨[token], by simp, List.suffix_refl _, ?_⟩
  rw [hlast line hline, hbuffered]
  rfl

theorem Takes.exists_loads (h : stream.Takes tokens rest) :
    ∃ loaded, stream.Loads tokens loaded rest := by
  induction h with
  | nil stream => exact ⟨[], .refl stream⟩
  | cons hnext _ ih =>
      obtain ⟨loaded, hfirst⟩ := loads_next hnext
      obtain ⟨more, hmore⟩ := ih
      exact ⟨loaded ++ more, hfirst.cons hmore⟩

/-- A token that has been taken is not pending, and no other is. -/
theorem Takes.pending (h : stream.Takes tokens rest) (hne : tokens ≠ []) :
    rest.pending = none := by
  induction h with
  | nil => exact absurd rfl hne
  | @cons _ _ _ _ tokens hnext htail ih =>
      cases tokens with
      | nil =>
          cases htail
          obtain ⟨seen, -, rfl⟩ := lookahead_of_next hnext
          rfl
      | cons => exact ih (by simp)

/-! ## Requests -/

/-- A request that does not come to the end depends on no lines but those it loads. -/
theorem askStream_cases (request : Request) (stream : TokenStream) :
    (request.askStream stream).2 = ended ∨
      ∃ loaded reply rest, Reads request.askStream stream loaded reply rest := by
  rcases stream.lookahead_cases with hend | ⟨loaded, result, rest, hreads, -⟩
  · left
    cases request <;> simp [Request.askStream, hasNext, next, hend]
  · have hunread : (request.askStream stream).2.unread = rest.unread := by
      rcases result with (_ | _) | token <;> cases request <;>
        simp [Request.askStream, hasNext, next, hreads.eq]
    refine .inr ⟨loaded, _, (request.askStream stream).2, by rw [hunread, hreads.unread],
      fun others => (?_ : _ = ((request.askStream stream).1, _))⟩
    rcases result with (_ | _) | token <;> cases request <;>
      simp [Request.askStream, hasNext, next, hreads.eq, hreads.any_behind others]

end TinyScript.TokenStream
