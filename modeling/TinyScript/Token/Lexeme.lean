import TinyScript.Text.Blank
import TinyScript.Token.Kind

/-!
# Lexemes

How a line is cut into tokens. A token never reaches past a blank, so a quoted text with a blank in
it falls into pieces.
-/

namespace TinyScript

/-- A bracket of any shape, which is a token wherever it stands outside quotes. -/
def isDelimiter (c : Char) : Bool :=
  c ∈ ['(', ')', '[', ']', '\x7b', '\x7d']

namespace Lexeme

/-- The rest of a string behind its opening quote: up to the next quote, or to the next blank if
that comes first. -/
def stringTail (chars : List Char) : List Char :=
  let body := chars.takeWhile fun c => !Text.isBlank c && c != '"'
  match chars.drop body.length with
  | '"' :: _ => body ++ ['"']
  | _ => body

/-- The lexeme at the start of a text, which is given as its first character and the others. The
first character is no blank. -/
def first (c : Char) (chars : List Char) : List Char :=
  if isDelimiter c then [c]
  else if c = '"' then c :: stringTail chars
  else if c = '\'' then c :: (chars.takeWhile (!Text.isBlank ·)).take 2
  else c :: chars.takeWhile fun c => !Text.isBlank c && !isDelimiter c

theorem stringTail_isPrefix (chars : List Char) : stringTail chars <+: chars := by
  unfold stringTail
  generalize hbody : (chars.takeWhile fun c => !Text.isBlank c && c != '"') = body
  have hprefix : body <+: chars := hbody ▸ List.takeWhile_prefix _
  obtain ⟨rest, rfl⟩ := hprefix
  simp only [List.drop_left]
  split
  · simp [List.prefix_append_right_inj]
  · simp

/-- A lexeme is the start of the text it is taken from. -/
theorem first_isPrefix (c : Char) (chars : List Char) : first c chars <+: c :: chars := by
  unfold first
  split
  · simp
  · split
    · simpa using stringTail_isPrefix chars
    · split
      · simpa using (List.take_prefix _ _).trans (List.takeWhile_prefix _)
      · simpa using List.takeWhile_prefix _

theorem first_ne_nil (c : Char) (chars : List Char) : first c chars ≠ [] := by
  unfold first
  split
  · simp
  · split
    · simp
    · split <;> simp

theorem length_first_pos (c : Char) (chars : List Char) : 0 < (first c chars).length := by
  exact List.length_pos_iff.2 (first_ne_nil c chars)

end Lexeme

/-- The next token of a text, and the text behind it. -/
def nextToken? (text : List Char) : Option (Token × List Char) :=
  match Text.skipBlanks text with
  | [] => none
  | c :: chars =>
    let lexeme := Lexeme.first c chars
    some (⟨.ofList lexeme⟩, (c :: chars).drop lexeme.length)

theorem length_of_nextToken? {text rest : List Char} {token : Token}
    (h : nextToken? text = some (token, rest)) : rest.length < text.length := by
  unfold nextToken? at h
  split at h
  · simp at h
  · next c chars hskip =>
      have hpos := Lexeme.length_first_pos c chars
      have hskipped := Text.length_skipBlanks_le text
      simp only [Option.some.injEq, Prod.mk.injEq] at h
      rw [← h.2, List.length_drop]
      rw [hskip] at hskipped
      simp only [List.length_cons] at *
      omega

end TinyScript
