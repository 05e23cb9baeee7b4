import TinyScript.Proofs.Program.Sequence
import TinyScript.Proofs.Token.Content

/-!
# Blanks between tokens

Blanks separate tokens and do nothing else. Every token, also one without a kind, is cut off again
where its spelling stands before a blank (`Token.IsLexeme.nextToken?`). So the tokens of a source
can be written down with any blanks between them and are the same again, and what is read from them
is the same (`blanks_only_separate`).
-/

namespace TinyScript

theorem Text.startsBlank_nil : Text.StartsBlank [] := by
  simp [Text.StartsBlank]

/-! ## Cutting off what has been cut off -/

namespace Lexeme

/-- Without a quote and a blank all is taken. -/
theorem stringTail_open {body : List Char} (h : ∀ c ∈ body, Text.isBlank c = false ∧ c ≠ '"') :
    stringTail body = body := by
  have hbody : body.takeWhile (fun c => !Text.isBlank c && c != '"') = body := by
    rw [List.takeWhile_eq_self_iff]
    intro c hc
    simp [h c hc]
  simp [stringTail, hbody]

theorem stringTail_idem (chars : List Char) :
    stringTail (stringTail chars) = stringTail chars := by
  have hbody : ∀ c ∈ chars.takeWhile fun c => !Text.isBlank c && c != '"',
      Text.isBlank c = false ∧ c ≠ '"' := by
    intro c hc
    simpa using List.mem_takeWhile_imp hc
  have hcases : stringTail chars = (chars.takeWhile fun c => !Text.isBlank c && c != '"') ∨
      stringTail chars =
        (chars.takeWhile fun c => !Text.isBlank c && c != '"') ++ ['"'] := by
    unfold stringTail
    dsimp only
    split
    · exact .inr rfl
    · exact .inl rfl
  rcases hcases with hopen | hclosed
  · rw [hopen, stringTail_open hbody]
  · rw [hclosed, stringTail_closed hbody []]

/-- A lexeme is its own first lexeme. -/
theorem first_idem {c : Char} {chars tail : List Char} (h : first c chars = c :: tail) :
    first c tail = c :: tail := by
  by_cases hdelimiter : isDelimiter c = true
  · rw [first_delimiter hdelimiter] at h ⊢
    exact h
  by_cases hstring : c = '"'
  · subst hstring
    rw [first_string, List.cons.injEq] at h
    rw [first_string, ← h.2, stringTail_idem]
  by_cases hcharacter : c = '\''
  · subst hcharacter
    rw [first_character, List.cons.injEq] at h
    have hall : tail.takeWhile (!Text.isBlank ·) = tail := by
      rw [List.takeWhile_eq_self_iff]
      intro d hd
      rw [← h.2] at hd
      rw [isBlank_of_mem_takeWhile ((List.take_sublist _ _).mem hd)]
      rfl
    rw [first_character, hall, ← h.2, List.take_take]
    rfl
  · have hplain : isDelimiter c = false := by simpa using hdelimiter
    rw [first_plain hplain hstring hcharacter, List.cons.injEq] at h
    rw [first_plain hplain hstring hcharacter, ← h.2, List.takeWhile_idem]

end Lexeme

/-- Before a blank every token is cut off again. -/
theorem Token.IsLexeme.nextToken? {token : Token} (h : token.IsLexeme) {rest : List Char}
    (hrest : Text.StartsBlank rest) :
    nextToken? (token.spelling.toList ++ rest) = some (token, rest) := by
  obtain ⟨c, chars, hc, hspelling⟩ := h
  obtain ⟨tail, hfirst⟩ : ∃ tail, Lexeme.first c chars = c :: tail := by
    obtain ⟨behind, hbehind⟩ := Lexeme.first_isPrefix c chars
    obtain ⟨d, tail, hcons⟩ := List.exists_cons_of_ne_nil (Lexeme.first_ne_nil c chars)
    rw [hcons] at hbehind ⊢
    exact ⟨tail, by rw [(List.cons.inj hbehind).1]⟩
  have hagain : Lexeme.first c (tail ++ rest) = c :: tail := by
    rw [Lexeme.first_append hrest, Lexeme.first_idem hfirst]
  have htoken : token = ⟨.ofList (c :: tail)⟩ := by
    rw [← hfirst, ← hspelling, String.ofList_toList]
  rw [hspelling, hfirst, nextToken?_of_first hc hagain, ← htoken]

/-- The spelling of a token is a text with this token only. -/
theorem Token.IsLexeme.tokensOf_spelling {token : Token} (h : token.IsLexeme) :
    tokensOf token.spelling.toList = [token] := by
  have hnext := h.nextToken? Text.startsBlank_nil
  rw [List.append_nil] at hnext
  rw [tokensOf_of_some hnext, tokensOf_nil]

theorem isLexeme_of_mem_tokensOf {text : List Char} {token : Token} (h : token ∈ tokensOf text) :
    token.IsLexeme := by
  fun_induction tokensOf text with
  | case1 => cases h
  | case2 text first rest hsome _ ih =>
      rcases List.mem_cons.1 h with rfl | hrest
      · exact isLexeme_of_nextToken? hsome
      · exact ih hrest

/-! ## Gaps -/

/-- The text is a gap between tokens: blanks, and at least one of them. -/
def Text.IsGap (gap : String) : Prop :=
  gap ≠ "" ∧ gap.toList.all isBlank = true

theorem Text.IsGap.exists_cons {gap : String} (h : IsGap gap) :
    ∃ c rest, gap.toList = c :: rest ∧ isBlank c = true ∧ ∀ d ∈ rest, isBlank d = true := by
  obtain ⟨c, rest, hcons⟩ :=
    List.exists_cons_of_ne_nil fun hnil => h.1 (String.toList_eq_nil_iff.1 hnil)
  have hblanks := h.2
  rw [hcons, List.all_cons, Bool.and_eq_true, List.all_eq_true] at hblanks
  exact ⟨c, rest, hcons, hblanks⟩

theorem tokensOf_blanks {blanks : List Char} (h : ∀ c ∈ blanks, Text.isBlank c = true)
    (text : List Char) : tokensOf (blanks ++ text) = tokensOf text := by
  induction blanks with
  | nil => rfl
  | cons c blanks ih =>
      rw [List.cons_append, tokensOf_cons_blank (h c (by simp))]
      exact ih fun d hd => h d (by simp [hd])

theorem tokensOf_gap {gap : String} (h : Text.IsGap gap) (text other : List Char) :
    tokensOf (text ++ gap.toList ++ other) = tokensOf text ++ tokensOf other := by
  obtain ⟨c, rest, hcons, hc, hrest⟩ := h.exists_cons
  rw [hcons, List.append_assoc, List.cons_append, tokensOf_append_cons hc, tokensOf_blanks hrest]

/-- The text consists of the tokens, with a gap between each and the next. -/
inductive Spaced : List Token → String → Prop
  | nil : Spaced [] ""
  | single (token : Token) : Spaced [token] token.spelling
  | cons {token next : Token} {tokens : List Token} {gap text : String} (hgap : Text.IsGap gap)
      (htext : Spaced (next :: tokens) text) :
      Spaced (token :: next :: tokens) (token.spelling ++ gap ++ text)

theorem Spaced.tokensOf_eq {tokens : List Token} {text : String} (h : Spaced tokens text)
    (htokens : ∀ token ∈ tokens, token.IsLexeme) : tokensOf text.toList = tokens := by
  induction h with
  | nil => exact tokensOf_nil
  | single token => exact (htokens token (by simp)).tokensOf_spelling
  | @cons token next tokens gap text hgap _ ih =>
      have hrest := ih fun other hother => htokens other (List.mem_cons_of_mem token hother)
      rw [String.toList_append, String.toList_append, tokensOf_gap hgap, hrest,
        (htokens token (by simp)).tokensOf_spelling]
      rfl

theorem spaced_intercalate {gap : String} (h : Text.IsGap gap) (tokens : List Token) :
    Spaced tokens (gap.intercalate (tokens.map Token.spelling)) := by
  induction tokens with
  | nil => exact .nil
  | cons token tokens ih =>
      cases tokens with
      | nil =>
          rw [List.map_singleton, String.intercalate_singleton]
          exact .single token
      | cons next tokens =>
          rw [List.map_cons, List.map_cons, String.intercalate_cons_cons]
          exact .cons h ih

/-! ## Sources -/

/-- The tokens of a source, also those behind unreadable lines. -/
def Event.tokens (events : List Event) : List Token :=
  events.filterMap fun
    | .token first => some first
    | .unreadable => none

theorem Event.isLexeme_of_mem {bytes : List UInt8} {found : Token}
    (h : found ∈ tokens (ofBytes bytes)) : found.IsLexeme := by
  obtain ⟨event, hevent, hfound⟩ := List.mem_filterMap.1 h
  cases event with
  | unreadable => cases hfound
  | token first =>
      obtain rfl := Option.some.inj hfound
      obtain ⟨line, _, hline⟩ := List.mem_flatMap.1 hevent
      unfold ofLine at hline
      split at hline
      · next text _ =>
          obtain ⟨other, hother, heq⟩ := List.mem_map.1 hline
          cases heq
          exact isLexeme_of_mem_tokensOf hother
      · simp at hline

theorem TokenStream.isLexeme_of_mem_drain {bytes : List UInt8} {token : Token}
    (h : token ∈ (ofBytes bytes).drain.1) : token.IsLexeme := by
  have hdrain : (ofBytes bytes).drain = ((ofBytes bytes).drain.1 ++ [], (ofBytes bytes).drain.2) := by
    rw [List.append_nil]
  obtain ⟨_, htakes, _⟩ := exists_takes_of_drain hdrain
  exact (Reachable.start _).isLexeme_of_takes htakes token h

/-- Where there are blanks between two texts, the tokens are those of the first and then those of
the second. The tokens of a source, whatever it is, are the same again if they stand with spaces or
with any other gaps between them, and this holds both for those up to its first unreadable line and
for all of them. What is read, statement by statement up to the first error, is the same for sources
with the same tokens, and so it does not depend on the gaps between tokens. -/
theorem blanks_only_separate :
    (∀ a gap b : String, Text.IsGap gap →
      (TokenStream.ofText (a ++ gap ++ b)).drain =
        ((TokenStream.ofText a).drain.1 ++ (TokenStream.ofText b).drain.1, none)) ∧
    (∀ (bytes : List UInt8) (tokens : List Token),
      tokens = (TokenStream.ofBytes bytes).drain.1 ∨
        tokens = Event.tokens (Event.ofBytes bytes) →
      Spaced tokens (" ".intercalate (tokens.map Token.spelling)) ∧
        ∀ text, Spaced tokens text → (TokenStream.ofText text).drain = (tokens, none)) ∧
    (∀ bytes others : List UInt8,
      (TokenStream.ofBytes bytes).drain = (TokenStream.ofBytes others).drain →
        parseStatements (.ofBytes bytes) = parseStatements (.ofBytes others)) ∧
    (∀ a gap other b : String, Text.IsGap gap → Text.IsGap other →
      parseStatements (.ofText (a ++ gap ++ b)) = parseStatements (.ofText (a ++ other ++ b))) ∧
    ∀ (bytes : List UInt8) (text : String), (TokenStream.ofBytes bytes).drain.2 = none →
      Spaced (TokenStream.ofBytes bytes).drain.1 text →
        parseStatements (.ofText text) = parseStatements (.ofBytes bytes) := by
  have hgaps : ∀ a gap b : String, Text.IsGap gap →
      (TokenStream.ofText (a ++ gap ++ b)).drain =
        ((TokenStream.ofText a).drain.1 ++ (TokenStream.ofText b).drain.1, none) := by
    intro a gap b hgap
    simp only [TokenStream.drain_ofText, String.toList_append, tokensOf_gap hgap]
  refine ⟨hgaps, fun bytes tokens htokens => ⟨spaced_intercalate ?_ _, fun text hspaced => ?_⟩,
    fun _ _ h => parseStatements_congr h, fun a gap other b hgap hother => ?_,
    fun bytes text hnone hspaced => ?_⟩
  · exact ⟨by decide, by decide⟩
  · have hlexemes : ∀ token ∈ tokens, token.IsLexeme := by
      rcases htokens with rfl | rfl
      · exact fun _ => TokenStream.isLexeme_of_mem_drain
      · exact fun _ => Event.isLexeme_of_mem
    rw [TokenStream.drain_ofText, hspaced.tokensOf_eq hlexemes]
  · apply parseStatements_congr
    rw [hgaps a gap b hgap, hgaps a other b hother]
  · apply parseStatements_congr
    rw [TokenStream.drain_ofText,
      hspaced.tokensOf_eq fun _ => TokenStream.isLexeme_of_mem_drain, ← hnone]

/-- An open string, a lone quote, the tokens around an unreadable line, and a call. -/
theorem wide_blanks_separate :
    let wide := "\u3000\n"
    let call : List UInt8 := [0x66, 0x28, 0x78, 0x29]
    let apart := "f" ++ "\t " ++ ("(" ++ wide ++ ("x" ++ "\u2028" ++ ")"))
    (TokenStream.ofText ("print \"a" ++ wide ++ "' x)")).drain =
        ([⟨"print"⟩, ⟨"\"a"⟩, ⟨"'"⟩, ⟨"x"⟩, ⟨")"⟩], none) ∧
      (TokenStream.ofText ("a" ++ wide ++ ("(" ++ "\t " ++ "b"))).drain =
        (Event.tokens (Event.ofBytes brokenSource), none) ∧
      parseStatements (.ofText ("f(x" ++ wide ++ ")")) =
        parseStatements (.ofText ("f(x" ++ "\t " ++ ")")) ∧
      (TokenStream.ofBytes call).drain = ([⟨"f"⟩, ⟨"("⟩, ⟨"x"⟩, ⟨")"⟩], none) ∧
      parseStatements (.ofText apart) = parseStatements (.ofBytes call) ∧
      parseStatements (.ofBytes apart.toUTF8.data.toList) = parseStatements (.ofBytes call) := by
  intro wide call apart
  have hwide : Text.IsGap wide := ⟨by decide, by decide⟩
  have htab : Text.IsGap "\t " := ⟨by decide, by decide⟩
  have hline : Text.IsGap "\u2028" := ⟨by decide, by decide⟩
  obtain ⟨hgaps, hspaced, hsame, hparses, hreads⟩ := blanks_only_separate
  have hcall : (TokenStream.ofBytes call).drain = ([⟨"f"⟩, ⟨"("⟩, ⟨"x"⟩, ⟨")"⟩], none) := by
    have hbytes : call = "f(x)".toUTF8.data.toList := by decide +kernel
    rw [hbytes, TokenStream.ofBytes_toUTF8, TokenStream.drain_ofText]
    decide +kernel
  have hapart : Spaced (TokenStream.ofBytes call).drain.1 apart := by
    rw [hcall]
    exact .cons htab (.cons hwide (.cons hline (.single ⟨")"⟩)))
  refine ⟨?_, (hspaced brokenSource _ (.inr rfl)).2 _ ?_, hparses _ _ _ _ hwide htab, hcall,
    hreads call apart (by rw [hcall]) hapart, hsame _ _ ?_⟩
  · rw [hgaps _ _ _ hwide, TokenStream.drain_ofText, TokenStream.drain_ofText]
    decide +kernel
  · have htokens : Event.tokens (Event.ofBytes brokenSource) = [⟨"a"⟩, ⟨"("⟩, ⟨"b"⟩] := by
      decide +kernel
    rw [htokens]
    exact .cons hwide (.cons htab (.single ⟨"b"⟩))
  · rw [TokenStream.ofBytes_toUTF8, (hspaced call _ (.inl rfl)).2 apart hapart, hcall]

end TinyScript
