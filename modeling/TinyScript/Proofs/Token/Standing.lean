import Mathlib.Data.List.TakeWhile
import TinyScript.Proofs.Token.Cutting

/-!
# Tokens that stand by themselves

A token that was cut off a text and has a kind is cut off again wherever its spelling is followed by
a blank or a bracket (`stands_of_isLexeme`). Words without a kind need not be: a lone quote takes
what follows it.
-/

namespace TinyScript

/-- The text ends a word that stands before it: it is empty or starts with a blank or a bracket. -/
def Text.StartsBoundary (text : List Char) : Prop :=
  ∀ c ∈ text.head?, Text.isBlank c = true ∨ isDelimiter c = true

theorem Text.startsBoundary_nil : Text.StartsBoundary [] := by
  simp [Text.StartsBoundary]

theorem Text.startsBoundary_blank {c : Char} (h : Text.isBlank c = true) (text : List Char) :
    Text.StartsBoundary (c :: text) := by
  simp [Text.StartsBoundary, h]

theorem Text.startsBoundary_delimiter {c : Char} (h : isDelimiter c = true)
    (text : List Char) : Text.StartsBoundary (c :: text) := by
  simp [Text.StartsBoundary, h]

namespace Token

/-- The token was cut off some text. -/
def IsLexeme (token : Token) : Prop :=
  ∃ c chars, Text.isBlank c = false ∧ token.spelling.toList = Lexeme.first c chars

/-- Where the spelling is followed by the end of a word, the token is cut off. -/
def Stands (token : Token) : Prop :=
  ∀ rest, Text.StartsBoundary rest →
    nextToken? (token.spelling.toList ++ rest) = some (token, rest)

end Token

theorem isLexeme_of_nextToken? {text rest : List Char} {token : Token}
    (h : nextToken? text = some (token, rest)) : token.IsLexeme := by
  unfold nextToken? at h
  split at h
  · simp at h
  · next c chars hskip =>
      simp only [Option.some.injEq, Prod.mk.injEq] at h
      refine ⟨c, chars, Text.isBlank_head_skipBlanks hskip, ?_⟩
      rw [← h.1, String.toList_ofList]

/-! ## Lexemes of a stream -/

namespace TokenStream

private theorem isLexeme_of_load {line : List Char} {unread : Source} {token : Token}
    {stream : TokenStream} (h : load line unread = (.ok token, stream)) : token.IsLexeme := by
  induction unread generalizing line with
  | nil =>
      unfold load at h
      split at h
      · next hnext =>
          cases h
          exact isLexeme_of_nextToken? hnext
      · simp at h
  | cons next unread ih =>
      unfold load at h
      split at h
      · next hnext =>
          cases h
          exact isLexeme_of_nextToken? hnext
      · cases next with
        | text chars => exact ih h
        | undecodable => simp at h

private theorem pending_of_load_error {line : List Char} {unread : Source} {e : StreamError}
    {stream : TokenStream} (h : load line unread = (.error e, stream)) :
    stream.pending = none := by
  induction unread generalizing line with
  | nil =>
      unfold load at h
      split at h
      · simp at h
      · cases h; rfl
  | cons next unread ih =>
      unfold load at h
      split at h
      · simp at h
      · cases next with
        | text chars => exact ih h
        | undecodable => cases h; rfl

/-- What a stream hands out was cut off its text, or had been seen before. -/
theorem isLexeme_of_lookahead {stream rest : TokenStream} {token : Token}
    (hpending : ∀ seen, stream.pending = some seen → seen.IsLexeme)
    (h : stream.lookahead = (.ok token, rest)) : token.IsLexeme := by
  unfold lookahead at h
  split at h
  · next seen hseen =>
      cases h
      exact hpending _ hseen
  · exact isLexeme_of_load h

theorem Reachable.isLexeme_pending {stream : TokenStream} (h : stream.Reachable) :
    ∀ token, stream.pending = some token → token.IsLexeme := by
  induction h with
  | start => simp
  | @lookahead stream _ ih =>
      intro token htoken
      rcases hlook : stream.lookahead with ⟨_ | first, rest⟩
      · rw [hlook] at htoken
        unfold TokenStream.lookahead at hlook
        split at hlook
        · simp at hlook
        · simp [pending_of_load_error hlook] at htoken
      · rw [hlook, pending_of_lookahead hlook] at htoken
        cases htoken
        exact isLexeme_of_lookahead ih hlook
  | advance => simp [TokenStream.advance]

theorem Reachable.isLexeme_of_next {stream rest : TokenStream} {token : Token}
    (h : stream.Reachable) (hnext : stream.next = (.ok token, rest)) : token.IsLexeme := by
  obtain ⟨seen, hlook, _⟩ := lookahead_of_next hnext
  exact isLexeme_of_lookahead h.isLexeme_pending hlook

theorem Reachable.isLexeme_of_takes {stream rest : TokenStream} {tokens : List Token}
    (h : stream.Reachable) (htakes : stream.Takes tokens rest) :
    ∀ token ∈ tokens, token.IsLexeme := by
  induction htakes with
  | nil => simp
  | cons hnext _ ih =>
      intro token htoken
      rcases List.mem_cons.1 htoken with rfl | htail
      · exact h.isLexeme_of_next hnext
      · exact ih (h.next hnext) token htail

end TokenStream

/-! ## Quoted words -/

namespace TokenKind

/-- The spellings of which each has a kind of its own. -/
def fixedSpellings : List String :=
  delimiters ++ keywords ++ boolOperators ++ mathOperators ++ sequenceOperators ++ boolLiterals

theorem head?_of_mem_fixedSpellings :
    ∀ spelling ∈ fixedSpellings,
      spelling.toList.head? ≠ some '"' ∧ spelling.toList.head? ≠ some '\'' := by
  decide

/-- A word with a kind is a fixed spelling or fits one of the four rules. -/
theorem cases_of_classify {spelling : String} (h : classify spelling ≠ .unknown) :
    spelling ∈ fixedSpellings ∨ isNumber spelling.toList = true ∨
      isIdentifier spelling.toList = true ∨ isString spelling.toList = true ∨
      isCharacter spelling.toList = true := by
  simp only [fixedSpellings, List.mem_append]
  unfold classify at h
  grind

theorem isNumber_quote {c : Char} (hc : c = '"' ∨ c = '\'') (chars : List Char) :
    isNumber (c :: chars) = false := by
  rcases hc with rfl | rfl <;>
    simp [isNumber, Number.Numeral.read?, Number.Numeral.readUnsigned?]

theorem isIdentifier_quote {c : Char} (hc : c = '"' ∨ c = '\'') (chars : List Char) :
    isIdentifier (c :: chars) = false := by
  rcases hc with rfl | rfl <;> simp [isIdentifier]

/-- A word with a kind that starts with a double quote is a string literal. -/
theorem isString_of_classify {spelling : String} {chars : List Char}
    (h : classify spelling ≠ .unknown) (hchars : spelling.toList = '"' :: chars) :
    isString ('"' :: chars) = true := by
  have hcases := cases_of_classify h
  have hfixed := head?_of_mem_fixedSpellings spelling
  rw [hchars] at hcases hfixed
  rcases hcases with hmem | hnumber | hidentifier | hstring | hcharacter
  · exact absurd rfl (hfixed hmem).1
  · rw [isNumber_quote (.inl rfl)] at hnumber
    contradiction
  · rw [isIdentifier_quote (.inl rfl)] at hidentifier
    contradiction
  · exact hstring
  · simp [isCharacter] at hcharacter

/-- A word with a kind that starts with a single quote is a character literal. -/
theorem isCharacter_of_classify {spelling : String} {chars : List Char}
    (h : classify spelling ≠ .unknown) (hchars : spelling.toList = '\'' :: chars) :
    isCharacter ('\'' :: chars) = true := by
  have hcases := cases_of_classify h
  have hfixed := head?_of_mem_fixedSpellings spelling
  rw [hchars] at hcases hfixed
  rcases hcases with hmem | hnumber | hidentifier | hstring | hcharacter
  · exact absurd rfl (hfixed hmem).2
  · rw [isNumber_quote (.inr rfl)] at hnumber
    contradiction
  · rw [isIdentifier_quote (.inr rfl)] at hidentifier
    contradiction
  · simp [isString] at hstring
  · exact hcharacter

theorem exists_of_isCharacter {chars : List Char} (h : isCharacter ('\'' :: chars) = true) :
    ∃ c, chars = [c, '\''] := by
  unfold isCharacter at h
  split at h
  · next c heq =>
      cases heq
      exact ⟨c, rfl⟩
  · simp at h

end TokenKind

/-! ## Cutting a spelling off again -/

namespace Lexeme

theorem first_delimiter {c : Char} (h : isDelimiter c = true) (chars : List Char) :
    first c chars = [c] := by
  simp [first, h]

theorem first_string (chars : List Char) : first '"' chars = '"' :: stringTail chars := by
  have h : isDelimiter '"' = false := by decide
  simp [first, h]

theorem first_character (chars : List Char) :
    first '\'' chars = '\'' :: (chars.takeWhile (!Text.isBlank ·)).take 2 := by
  have h : isDelimiter '\'' = false := by decide
  simp [first, h]

theorem first_plain {c : Char} (hdelimiter : isDelimiter c = false) (hstring : c ≠ '"')
    (hcharacter : c ≠ '\'') (chars : List Char) :
    first c chars = c :: chars.takeWhile fun d => !Text.isBlank d && !isDelimiter d := by
  simp [first, hdelimiter, hstring, hcharacter]

theorem isBlank_of_mem_takeWhile {c : Char} {chars : List Char}
    (h : c ∈ chars.takeWhile (!Text.isBlank ·)) : Text.isBlank c = false := by
  simpa using List.mem_takeWhile_imp h

theorem isBlank_of_mem_stringTail {c : Char} {chars : List Char} (h : c ∈ stringTail chars) :
    Text.isBlank c = false := by
  have hbody : ∀ d ∈ chars.takeWhile fun d => !Text.isBlank d && d != '"',
      Text.isBlank d = false := by
    intro d hd
    have := List.mem_takeWhile_imp hd
    simp_all
  unfold stringTail at h
  dsimp only at h
  split at h
  · rcases List.mem_append.1 h with hd | hd
    · exact hbody c hd
    · rw [List.mem_singleton.1 hd]
      decide
  · exact hbody c h

theorem stringTail_closed {body : List Char}
    (h : ∀ c ∈ body, Text.isBlank c = false ∧ c ≠ '"') (rest : List Char) :
    stringTail (body ++ '"' :: rest) = body ++ ['"'] := by
  have hbody : (body ++ '"' :: rest).takeWhile (fun c => !Text.isBlank c && c != '"') = body := by
    rw [List.takeWhile_append_of_pos]
    · simp
    · intro c hc
      simp [h c hc]
  simp [stringTail, hbody]

end Lexeme

theorem nextToken?_of_first {c : Char} {chars rest : List Char} (hc : Text.isBlank c = false)
    (h : Lexeme.first c (chars ++ rest) = c :: chars) :
    nextToken? (c :: chars ++ rest) = some (⟨.ofList (c :: chars)⟩, rest) := by
  have hskip : Text.skipBlanks (c :: (chars ++ rest)) = c :: (chars ++ rest) := by
    simp [Text.skipBlanks, hc]
  rw [List.cons_append, nextToken?, hskip]
  simp [h]

/-- A string literal ends at its own closing quote. -/
private theorem first_again_string {chars : List Char}
    (h : TokenKind.isString ('"' :: Lexeme.stringTail chars) = true) (rest : List Char) :
    Lexeme.first '"' (Lexeme.stringTail chars ++ rest) = '"' :: Lexeme.stringTail chars := by
  simp only [TokenKind.isString, decide_eq_true_eq] at h
  have hsplit := List.takeWhile_append_dropWhile (p := (· ≠ '"'))
    (l := Lexeme.stringTail chars)
  rw [h] at hsplit
  have hbody : ∀ c ∈ (Lexeme.stringTail chars).takeWhile (· ≠ '"'),
      Text.isBlank c = false ∧ c ≠ '"' := by
    intro c hc
    refine ⟨Lexeme.isBlank_of_mem_stringTail ((List.takeWhile_sublist _).mem hc), ?_⟩
    simpa using List.mem_takeWhile_imp hc
  rw [Lexeme.first_string, ← hsplit, List.append_assoc, List.singleton_append,
    Lexeme.stringTail_closed hbody]

/-- A character literal is three characters long, whatever they are. -/
private theorem first_again_character {chars : List Char}
    (h : TokenKind.isCharacter ('\'' :: (chars.takeWhile (!Text.isBlank ·)).take 2) = true)
    (rest : List Char) :
    Lexeme.first '\'' ((chars.takeWhile (!Text.isBlank ·)).take 2 ++ rest) =
      '\'' :: (chars.takeWhile (!Text.isBlank ·)).take 2 := by
  obtain ⟨c, hc⟩ := TokenKind.exists_of_isCharacter h
  have hmem : c ∈ (chars.takeWhile (!Text.isBlank ·)).take 2 := by simp [hc]
  have hblank : Text.isBlank c = false :=
    Lexeme.isBlank_of_mem_takeWhile ((List.take_sublist _ _).mem hmem)
  have hquote : Text.isBlank '\'' = false := by decide
  rw [hc, Lexeme.first_character]
  simp [hblank, hquote]

/-- Any other word goes on up to the next blank or bracket. -/
private theorem first_again_plain {c : Char} (hdelimiter : isDelimiter c = false)
    (hstring : c ≠ '"') (hcharacter : c ≠ '\'') (chars : List Char) {rest : List Char}
    (hrest : Text.StartsBoundary rest) :
    Lexeme.first c ((chars.takeWhile fun d => !Text.isBlank d && !isDelimiter d) ++ rest) =
      c :: chars.takeWhile fun d => !Text.isBlank d && !isDelimiter d := by
  have hstop : ∀ d ∈ rest.head?, (!Text.isBlank d && !isDelimiter d) = false := by
    intro d hd
    rcases hrest d hd with hblank | hbracket
    · simp [hblank]
    · simp [hbracket]
  rw [Lexeme.first_plain hdelimiter hstring hcharacter, Text.takeWhile_append_of_head hstop,
    List.takeWhile_idem]

theorem stands_of_isLexeme {token : Token} (h : token.IsLexeme)
    (hkind : token.kind ≠ .unknown) : token.Stands := by
  obtain ⟨c, chars, hc, hspelling⟩ := h
  intro rest hrest
  have hagain : ∀ tail, Lexeme.first c chars = c :: tail →
      Lexeme.first c (tail ++ rest) = c :: tail →
      nextToken? (token.spelling.toList ++ rest) = some (token, rest) := by
    intro tail hfirst hsame
    have htoken : token = ⟨.ofList (c :: tail)⟩ := by
      rw [← hfirst, ← hspelling, String.ofList_toList]
    rw [hspelling, hfirst, nextToken?_of_first hc hsame, ← htoken]
  by_cases hdelimiter : isDelimiter c = true
  · exact hagain [] (Lexeme.first_delimiter hdelimiter _) (Lexeme.first_delimiter hdelimiter _)
  by_cases hstring : c = '"'
  · subst hstring
    have hfirst := Lexeme.first_string chars
    have hliteral := TokenKind.isString_of_classify hkind (hspelling.trans hfirst)
    exact hagain _ hfirst (first_again_string hliteral rest)
  by_cases hcharacter : c = '\''
  · subst hcharacter
    have hfirst := Lexeme.first_character chars
    have hliteral := TokenKind.isCharacter_of_classify hkind (hspelling.trans hfirst)
    exact hagain _ hfirst (first_again_character hliteral rest)
  · have hplain : isDelimiter c = false := by simpa using hdelimiter
    exact hagain _ (Lexeme.first_plain hplain hstring hcharacter chars)
      (first_again_plain hplain hstring hcharacter chars hrest)

theorem tokensOf_stands {token : Token} (h : token.Stands) {rest : List Char}
    (hrest : Text.StartsBoundary rest) :
    tokensOf (token.spelling.toList ++ rest) = token :: tokensOf rest :=
  tokensOf_of_some (h rest hrest)

/-- A bracket is a token whatever follows it. -/
theorem tokensOf_delimiter {c : Char} (h : isDelimiter c = true) (rest : List Char) :
    tokensOf (c :: rest) = ⟨.singleton c⟩ :: tokensOf rest := by
  have hblank : Text.isBlank c = false := by
    simp only [isDelimiter, decide_eq_true_eq, List.mem_cons, List.not_mem_nil, or_false] at h
    rcases h with rfl | rfl | rfl | rfl | rfl | rfl <;> decide
  have hnext : nextToken? ([c] ++ rest) = some (⟨.ofList [c]⟩, rest) :=
    nextToken?_of_first hblank (Lexeme.first_delimiter h _)
  rw [String.singleton_eq_ofList]
  exact tokensOf_of_some hnext

end TinyScript
