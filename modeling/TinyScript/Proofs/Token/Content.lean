import TinyScript.Proofs.Token.Cursor
import TinyScript.Proofs.Token.Standing

/-!
# What the tokens of a text make up

Each of the rules by which a token is cut off takes characters from the start of what is left, and
takes no blank (`nextToken?_content`). So the tokens of a text, one behind the other, are the text
without its blanks: nothing is dropped and nothing is read twice (`tokens_make_up_text`).
-/

namespace TinyScript

/-! ## Blanks -/

namespace Text

/-- The characters of a text that are no blanks. -/
def withoutBlanks (text : List Char) : List Char :=
  text.filter (!isBlank ·)

theorem withoutBlanks_append (text other : List Char) :
    withoutBlanks (text ++ other) = withoutBlanks text ++ withoutBlanks other :=
  List.filter_append ..

theorem withoutBlanks_of_forall {text : List Char} (h : ∀ c ∈ text, isBlank c = false) :
    withoutBlanks text = text := by
  refine List.filter_eq_self.2 fun c hc => ?_
  rw [h c hc]
  rfl

theorem withoutBlanks_skipBlanks (text : List Char) :
    withoutBlanks (skipBlanks text) = withoutBlanks text := by
  have hskipped : withoutBlanks (text.takeWhile isBlank) = [] := by
    refine List.filter_eq_nil_iff.2 fun c hc => ?_
    rw [List.mem_takeWhile_imp hc]
    decide
  calc withoutBlanks (skipBlanks text)
      = withoutBlanks (text.takeWhile isBlank) ++ withoutBlanks (skipBlanks text) := by
        rw [hskipped, List.nil_append]
    _ = withoutBlanks text := by
        rw [← withoutBlanks_append, skipBlanks, List.takeWhile_append_dropWhile]

end Text

/-! ## One token -/

/-- No rule takes a blank. -/
theorem Lexeme.isBlank_of_mem_first {c d : Char} {chars : List Char} (hc : Text.isBlank c = false)
    (h : d ∈ first c chars) : Text.isBlank d = false := by
  have hcons : ∀ tail, (∀ e ∈ tail, Text.isBlank e = false) → d ∈ c :: tail →
      Text.isBlank d = false := by
    intro tail htail hd
    rcases List.mem_cons.1 hd with rfl | hd
    · exact hc
    · exact htail d hd
  by_cases hdelimiter : isDelimiter c = true
  · rw [first_delimiter hdelimiter] at h
    exact hcons [] (fun e he => nomatch he) h
  by_cases hstring : c = '"'
  · subst hstring
    rw [first_string] at h
    exact hcons _ (fun e he => isBlank_of_mem_stringTail he) h
  by_cases hcharacter : c = '\''
  · subst hcharacter
    rw [first_character] at h
    exact hcons _ (fun e he => isBlank_of_mem_takeWhile ((List.take_sublist _ _).mem he)) h
  · rw [first_plain (by simpa using hdelimiter) hstring hcharacter] at h
    refine hcons _ (fun e he => ?_) h
    have hplain := List.mem_takeWhile_imp he
    rw [Bool.and_eq_true, Bool.not_eq_true'] at hplain
    exact hplain.1

theorem Token.IsLexeme.isBlank_of_mem {token : Token} (h : token.IsLexeme) {c : Char}
    (hc : c ∈ token.spelling.toList) : Text.isBlank c = false := by
  obtain ⟨d, chars, hd, hspelling⟩ := h
  rw [hspelling] at hc
  exact Lexeme.isBlank_of_mem_first hd hc

/-- A token and the text behind it have the characters of the text that it is cut off. -/
theorem nextToken?_content {text rest : List Char} {token : Token}
    (h : nextToken? text = some (token, rest)) :
    Text.withoutBlanks text = token.spelling.toList ++ Text.withoutBlanks rest := by
  have hblank : ∀ c ∈ token.spelling.toList, Text.isBlank c = false :=
    fun c hc => (isLexeme_of_nextToken? h).isBlank_of_mem hc
  have hskip : Text.skipBlanks text = token.spelling.toList ++ rest := by
    unfold nextToken? at h
    split at h
    · cases h
    · next c chars hskip =>
        obtain ⟨behind, hbehind⟩ := Lexeme.first_isPrefix c chars
        cases h
        rw [hskip, String.toList_ofList, ← hbehind, List.drop_left]
  calc Text.withoutBlanks text
      = Text.withoutBlanks (token.spelling.toList ++ rest) := by
        rw [← hskip, Text.withoutBlanks_skipBlanks]
    _ = token.spelling.toList ++ Text.withoutBlanks rest := by
        rw [Text.withoutBlanks_append, Text.withoutBlanks_of_forall hblank]

/-! ## All tokens -/

theorem tokensOf_content (text : List Char) :
    (tokensOf text).flatMap (·.spelling.toList) = Text.withoutBlanks text := by
  fun_induction tokensOf text with
  | case1 text hnone =>
      rw [← Text.withoutBlanks_skipBlanks, skipBlanks_of_nextToken? hnone]
      rfl
  | case2 text token rest hsome _ ih =>
      rw [List.flatMap_cons, ih, nextToken?_content hsome]

/-- From the bytes of any text, token after token can be taken up to the end of input. No token is
empty or holds a blank, and one behind the other they are the text without its blanks. -/
theorem tokens_make_up_text (text : String) :
    ∃ tokens rest, (TokenStream.ofBytes text.toUTF8.data.toList).Takes tokens rest ∧
      (∃ last, rest.next = (.error .endOfInput, last)) ∧
      (∀ token ∈ tokens, token.spelling ≠ "" ∧
        ∀ c ∈ token.spelling.toList, Text.isBlank c = false) ∧
      String.join (tokens.map Token.spelling) =
        String.ofList (text.toList.filter fun c => !Text.isBlank c) := by
  have hdrain : (TokenStream.ofBytes text.toUTF8.data.toList).drain =
      (tokensOf text.toList ++ [], none) := by
    rw [TokenStream.ofBytes_toUTF8, TokenStream.drain_ofText, List.append_nil]
  obtain ⟨rest, htakes, hrest⟩ := TokenStream.exists_takes_of_drain hdrain
  have hlexemes := (TokenStream.Reachable.start _).isLexeme_of_takes htakes
  refine ⟨tokensOf text.toList, rest, htakes, TokenStream.next_of_drain_nil hrest, ?_, ?_⟩
  · intro token htoken
    exact ⟨spelling_ne_empty_of_mem_tokensOf htoken,
      fun c hc => (hlexemes token htoken).isBlank_of_mem hc⟩
  · apply String.ext
    rw [String.toList_join, List.flatMap_map, String.toList_ofList]
    exact tokensOf_content text.toList

/-- Quotes around a blank, a quoted character of two bytes, a blank of three bytes and brackets. -/
def quotedText : String :=
  "print \"a b\"\u3000'é'x\x7b1.5\x7d\n"

theorem quotedText_tokens :
    ∃ tokens rest, (TokenStream.ofBytes quotedText.toUTF8.data.toList).Takes tokens rest ∧
      (∃ last, rest.next = (.error .endOfInput, last)) ∧
      String.join (tokens.map Token.spelling) = "print\"ab\"'é'x\x7b1.5\x7d" := by
  obtain ⟨tokens, rest, htakes, hend, -, hjoin⟩ := tokens_make_up_text quotedText
  exact ⟨tokens, rest, htakes, hend, hjoin.trans (by decide +kernel)⟩

end TinyScript
