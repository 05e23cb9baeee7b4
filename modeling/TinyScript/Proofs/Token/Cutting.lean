import TinyScript.Proofs.Text.Lines
import TinyScript.Proofs.Token.Taking

/-!
# Cutting a text into tokens

The tokens of a text do not depend on how the text is cut into lines: a line end is a blank, and a
blank ends every token. So the tokens of two texts with a blank between them are the tokens of the
one and then the tokens of the other (`tokensOf_append`), and a stream hands out the tokens of its
text (`drain_ofText`).
-/

namespace TinyScript

namespace Text

/-- The text ends whatever token stands before it: it is empty or starts with a blank. -/
def StartsBlank (text : List Char) : Prop :=
  ∀ c ∈ text.head?, isBlank c = true

theorem startsBlank_cons {c : Char} (h : isBlank c = true) (text : List Char) :
    StartsBlank (c :: text) := by
  simp [StartsBlank, h]

theorem takeWhile_append_of_head {p : Char → Bool} {b : List Char}
    (hb : ∀ c ∈ b.head?, p c = false) (a : List Char) :
    (a ++ b).takeWhile p = a.takeWhile p := by
  induction a with
  | nil =>
      cases b with
      | nil => rfl
      | cons c b => simp [hb c (by simp)]
  | cons c a ih => simp [List.takeWhile_cons, ih]

theorem skipBlanks_append_of_ne_nil {a : List Char} (h : skipBlanks a ≠ []) (b : List Char) :
    skipBlanks (a ++ b) = skipBlanks a ++ b := by
  rw [skipBlanks, List.dropWhile_append, if_neg (by simpa [skipBlanks] using h)]
  rfl

theorem skipBlanks_append_of_nil {a : List Char} (h : skipBlanks a = []) (b : List Char) :
    skipBlanks (a ++ b) = skipBlanks b := by
  rw [skipBlanks, List.dropWhile_append, if_pos (by simpa [skipBlanks] using h)]
  rfl

end Text

/-! ## One token -/

namespace Lexeme

theorem stringTail_append {b : List Char} (hb : Text.StartsBlank b) (a : List Char) :
    stringTail (a ++ b) = stringTail a := by
  unfold stringTail
  have hbody : (a ++ b).takeWhile (fun c => !Text.isBlank c && c != '"') =
      a.takeWhile fun c => !Text.isBlank c && c != '"' := by
    apply Text.takeWhile_append_of_head
    intro c hc
    simp [hb c hc]
  have hlength : (a.takeWhile fun c => !Text.isBlank c && c != '"').length ≤ a.length :=
    (List.takeWhile_prefix _).length_le
  simp only [hbody, List.drop_append_of_le_length hlength]
  generalize a.drop (a.takeWhile fun c => !Text.isBlank c && c != '"').length = rest
  cases rest with
  | cons c rest =>
      by_cases hquote : c = '"'
      · subst hquote
        rfl
      · simp [hquote]
  | nil =>
      cases b with
      | nil => rfl
      | cons c b =>
          have hc : Text.isBlank c = true := hb c (by simp)
          have hquote : c ≠ '"' := by
            rintro rfl
            exact absurd hc (by decide)
          simp [hquote]

theorem first_append {b : List Char} (hb : Text.StartsBlank b) (c : Char) (a : List Char) :
    first c (a ++ b) = first c a := by
  unfold first
  rw [stringTail_append hb]
  have hquoted : (a ++ b).takeWhile (!Text.isBlank ·) = a.takeWhile (!Text.isBlank ·) := by
    apply Text.takeWhile_append_of_head
    intro d hd
    simp [hb d hd]
  have hplain : (a ++ b).takeWhile (fun c => !Text.isBlank c && !isDelimiter c) =
      a.takeWhile fun c => !Text.isBlank c && !isDelimiter c := by
    apply Text.takeWhile_append_of_head
    intro d hd
    simp [hb d hd]
  rw [hquoted, hplain]

end Lexeme

theorem skipBlanks_of_nextToken? {text : List Char} (h : nextToken? text = none) :
    Text.skipBlanks text = [] := by
  unfold nextToken? at h
  split at h
  · assumption
  · simp at h

theorem nextToken?_append {a b rest : List Char} {token : Token} (hb : Text.StartsBlank b)
    (h : nextToken? a = some (token, rest)) :
    nextToken? (a ++ b) = some (token, rest ++ b) := by
  unfold nextToken? at h ⊢
  split at h
  · simp at h
  · next c chars hskip =>
      rw [Text.skipBlanks_append_of_ne_nil (by simp [hskip]), hskip, List.cons_append]
      simp only [Option.some.injEq, Prod.mk.injEq] at h ⊢
      rw [Lexeme.first_append hb]
      refine ⟨h.1, ?_⟩
      rw [← h.2, ← List.cons_append]
      exact List.drop_append_of_le_length (Lexeme.first_isPrefix c chars).length_le

/-! ## All tokens -/

/-- The tokens of a text. -/
def tokensOf (text : List Char) : List Token :=
  match h : nextToken? text with
  | none => []
  | some (token, rest) =>
    have := length_of_nextToken? h
    token :: tokensOf rest
termination_by text.length

theorem tokensOf_of_none {text : List Char} (h : nextToken? text = none) :
    tokensOf text = [] := by
  rw [tokensOf]
  split
  · rfl
  · next hnext => simp [h] at hnext

theorem tokensOf_of_some {text rest : List Char} {token : Token}
    (h : nextToken? text = some (token, rest)) : tokensOf text = token :: tokensOf rest := by
  rw [tokensOf]
  split
  · next hnext => simp [h] at hnext
  · next hnext =>
      rw [h] at hnext
      cases hnext
      rfl

@[simp] theorem tokensOf_nil : tokensOf [] = [] :=
  tokensOf_of_none rfl

private theorem nextToken?_congr {text other : List Char}
    (h : Text.skipBlanks text = Text.skipBlanks other) : nextToken? text = nextToken? other := by
  rw [nextToken?, nextToken?, h]

theorem tokensOf_congr {text other : List Char}
    (h : Text.skipBlanks text = Text.skipBlanks other) : tokensOf text = tokensOf other := by
  have hnext := nextToken?_congr h
  rcases hother : nextToken? other with _ | ⟨token, rest⟩
  · rw [tokensOf_of_none (hnext.trans hother), tokensOf_of_none hother]
  · rw [tokensOf_of_some (hnext.trans hother), tokensOf_of_some hother]

theorem tokensOf_cons_blank {c : Char} (h : Text.isBlank c = true) (text : List Char) :
    tokensOf (c :: text) = tokensOf text := by
  apply tokensOf_congr
  simp [Text.skipBlanks, h]

theorem tokensOf_append {b : List Char} (hb : Text.StartsBlank b) (a : List Char) :
    tokensOf (a ++ b) = tokensOf a ++ tokensOf b := by
  fun_induction tokensOf a with
  | case1 a hnone =>
      rw [List.nil_append]
      exact tokensOf_congr (Text.skipBlanks_append_of_nil (skipBlanks_of_nextToken? hnone) b)
  | case2 a token rest hsome _ ih =>
      rw [tokensOf_of_some (nextToken?_append hb hsome), ih]
      rfl

theorem tokensOf_append_cons {c : Char} (h : Text.isBlank c = true) (a b : List Char) :
    tokensOf (a ++ c :: b) = tokensOf a ++ tokensOf b := by
  rw [tokensOf_append (Text.startsBlank_cons h b), tokensOf_cons_blank h]

theorem isBlank_lineFeed : Text.isBlank '\n' = true := by decide

theorem tokensOf_intercalate (pieces : List (List Char)) :
    tokensOf (['\n'].intercalate pieces) = pieces.flatMap tokensOf := by
  induction pieces with
  | nil => simp
  | cons piece pieces ih =>
      cases pieces with
      | nil => simp
      | cons other pieces =>
          rw [List.intercalate_cons_cons, List.append_assoc, List.singleton_append,
            tokensOf_append_cons isBlank_lineFeed, ih]
          rfl

/-! ## Lines -/

/-- Each line but the last ends with a line feed. -/
def Ended (lines : List (List Char)) : Prop :=
  ∀ line ∈ lines.dropLast, line.getLast? = some '\n'

private theorem ended_consLine (c : Char) {lines : List (List Char)} (h : Ended lines) :
    Ended (Text.consLine (· == '\n') c lines) := by
  intro line hline
  unfold Text.consLine at hline
  split at hline
  · next hc =>
      cases lines with
      | nil => simp at hline
      | cons first rest =>
          rw [List.dropLast_cons_of_ne_nil (by simp)] at hline
          rcases List.mem_cons.1 hline with rfl | hrest
          · simpa using hc
          · exact h line hrest
  · split at hline
    · simp at hline
    · next first rest =>
        cases rest with
        | nil => simp at hline
        | cons second rest =>
            rw [List.dropLast_cons_of_ne_nil (by simp)] at hline
            have hfirst := h first (by simp)
            rcases List.mem_cons.1 hline with rfl | hrest
            · rw [List.getLast?_cons, hfirst]
              rfl
            · exact h line (by
                rw [List.dropLast_cons_of_ne_nil (by simp)]
                exact List.mem_cons_of_mem _ hrest)

theorem ended_splitLines (text : List Char) : Ended (Text.splitLines (· == '\n') text) := by
  induction text with
  | nil => simp [Ended]
  | cons c text ih => exact ended_consLine c ih

theorem tokensOf_flatten {lines : List (List Char)} (h : Ended lines) :
    tokensOf lines.flatten = lines.flatMap tokensOf := by
  induction lines with
  | nil => simp
  | cons line lines ih =>
      cases lines with
      | nil => simp
      | cons second lines =>
          have hline : line.getLast? = some '\n' := h line (by simp)
          obtain ⟨start, rfl⟩ := List.getLast?_eq_some_iff.1 hline
          have htail : Ended (second :: lines) := by
            intro other hother
            exact h other (by
              rw [List.dropLast_cons_of_ne_nil (by simp)]
              exact List.mem_cons_of_mem _ hother)
          rw [List.flatten_cons, List.append_assoc, List.singleton_append,
            tokensOf_append_cons isBlank_lineFeed, ih htail, List.flatMap_cons (x := _ ++ _),
            tokensOf_append_cons isBlank_lineFeed, tokensOf_nil, List.append_nil]

/-! ## Streams -/

namespace TokenStream

theorem next_of_nextToken? {line rest : List Char} {token : Token} (unread : Source)
    (h : nextToken? line = some (token, rest)) :
    next ⟨unread, line, none⟩ = (.ok token, ⟨unread, rest, none⟩) := by
  have hlook : lookahead ⟨unread, line, none⟩ = (.ok token, ⟨unread, rest, some token⟩) := by
    rw [lookahead]
    unfold load
    simp only [h]
  exact next_of_lookahead hlook

private theorem next_of_line_end {line : List Char} (chars : List Char) (unread : Source)
    (h : nextToken? line = none) :
    next ⟨.text chars :: unread, line, none⟩ = next ⟨unread, chars, none⟩ := by
  have hload : load line (.text chars :: unread) = load chars unread := by
    rw [load, h]
  simp only [next, lookahead, hload]

/-- A stream of texts hands out the tokens of its lines, and no line is refused. -/
theorem drain_of_lines (lines : List (List Char)) (line : List Char) :
    drain ⟨lines.map .text, line, none⟩ = (tokensOf line ++ lines.flatMap tokensOf, none) := by
  induction lines generalizing line with
  | nil =>
      fun_induction tokensOf line with
      | case1 line hnone =>
          have hend : next ⟨[], line, none⟩ = (.error .endOfInput, ⟨[], [], none⟩) := by
            simp [next, lookahead, load, hnone]
          exact drain_of_next_end hend
      | case2 line token rest hsome _ ih =>
          rw [drain_of_next (next_of_nextToken? _ hsome), ih]
          rfl
  | cons chars lines ihlines =>
      fun_induction tokensOf line with
      | case1 line hnone =>
          rw [List.map_cons, drain_congr (next_of_line_end chars _ hnone), ihlines]
          rfl
      | case2 line token rest hsome _ ih =>
          rw [drain_of_next (next_of_nextToken? _ hsome), ih]
          rfl

theorem ofBytes_toUTF8 (text : String) : ofBytes text.toUTF8.data.toList = ofText text :=
  congrArg (TokenStream.mk · [] none) (Source.ofBytes_toUTF8 text)

/-- A stream hands out the tokens of its text, wherever its lines end. -/
theorem drain_ofText (text : String) : (ofText text).drain = (tokensOf text.toList, none) := by
  have hlines := drain_of_lines (Text.splitLines (· == '\n') text.toList) []
  rw [tokensOf_nil, List.nil_append, ← tokensOf_flatten (ended_splitLines _),
    Text.flatten_splitLines] at hlines
  exact hlines

end TokenStream

end TinyScript
