import TinyScript.Text.Lines

/-!
# Moving text to the right

A text is moved to the right by taking it apart into its lines and putting them together again
behind a margin (`Text.moved`). What becomes of a text can be told from what becomes of its parts,
where each part is a line or ends with one (`MovesTo.line`, `MovesTo.below`, `MovesAbove.cons`).
-/

namespace TinyScript.Text

/-- The text has no line feed and no carriage return. -/
def OneLine (text : String) : Prop :=
  ∀ c ∈ text.toList, c ≠ '\n' ∧ c ≠ '\r'

-- The characters of the text are tried, and not all characters.
instance (text : String) : Decidable (OneLine text) :=
  List.decidableBAll (fun c => c ≠ '\n' ∧ c ≠ '\r') text.toList

@[simp] theorem oneLine_append {a b : String} : OneLine (a ++ b) ↔ OneLine a ∧ OneLine b := by
  simp only [OneLine, String.toList_append, List.mem_append]
  grind

theorem OneLine.not_mem {text : String} (h : OneLine text) : '\n' ∉ text.toList := by
  intro hmem
  exact (h _ hmem).1 rfl

theorem OneLine.intercalate {separator : String} {pieces : List String}
    (hseparator : OneLine separator) (h : ∀ piece ∈ pieces, OneLine piece) :
    OneLine (separator.intercalate pieces) := by
  induction pieces with
  | nil => simp [OneLine]
  | cons piece pieces ih =>
      rw [List.forall_mem_cons] at h
      cases pieces with
      | nil => simpa using h.1
      | cons next pieces =>
          rw [String.intercalate_cons_cons, oneLine_append, oneLine_append]
          exact ⟨⟨h.1, hseparator⟩, ih h.2⟩

/-! ## Lines of a text that is put together -/

theorem dropReturn_of_oneLine {line : String} (h : OneLine line) : dropReturn line = line := by
  unfold dropReturn
  split
  · next hback =>
      rw [String.back?_eq] at hback
      exact absurd rfl (h _ (List.mem_of_getLast? hback)).2
  · rfl

/-- The last line needs no line feed behind it, unless nothing stands in it. -/
theorem lines_of_oneLine {line : String} (h : OneLine line) (hne : line ≠ "") :
    lines line = [line] := by
  have hpieces : line.toList.splitOn '\n' = [line.toList] :=
    List.splitOn_eq_singleton h.not_mem
  rw [lines_eq, hpieces]
  simp [linesOfPieces, hne]

theorem lines_append {line : String} (h : OneLine line) (rest : String) :
    lines (line ++ "\n" ++ rest) = line :: lines rest := by
  have htext : (line ++ "\n" ++ rest).toList = line.toList ++ '\n' :: rest.toList := by
    simp
  rw [lines_eq, lines_eq, htext, List.splitOn_append_cons_self_of_not_mem h.not_mem, List.map_cons,
    String.ofList_toList]
  have hne : (rest.toList.splitOn '\n').map String.ofList ≠ [] := by simp
  obtain ⟨piece, pieces, hpieces⟩ := List.exists_cons_of_ne_nil hne
  rw [hpieces, linesOfPieces.eq_3 _ _ (by simp), dropReturn_of_oneLine h]

/-! ## Margins -/

/-- The spaces in front of a line at a depth. -/
def margin (depth : Nat) : String :=
  .ofList (.replicate (2 * depth) ' ')

theorem margin_add (m n : Nat) : margin (m + n) = margin m ++ margin n := by
  rw [margin, margin, margin, ← String.ofList_append, List.replicate_append_replicate, Nat.mul_add]

theorem oneLine_margin (depth : Nat) : OneLine (margin depth) := by
  intro c hc
  rw [margin, String.toList_ofList] at hc
  rw [List.eq_of_mem_replicate hc]
  decide

/-- Each line of the text behind the margin of a depth, and ended by a line feed. -/
def moved (depth : Nat) (text : String) : String :=
  String.join ((lines text).map fun line => margin depth ++ line ++ "\n")

theorem indent_eq_moved (text : String) : indent text = moved 1 text := rfl

theorem moved_append {line : String} (h : OneLine line) (depth : Nat) (rest : String) :
    moved depth (line ++ "\n" ++ rest) = margin depth ++ line ++ "\n" ++ moved depth rest := by
  rw [moved, lines_append h, List.map_cons, String.join_cons, moved]

/-! ## Moving line after line -/

/-- Moving the first text by the depth makes it the second, also where more lines follow. -/
structure MovesTo (depth : Nat) (text result : String) : Prop where
  alone : moved depth text = result ++ "\n"
  followed (rest : String) :
    moved depth (text ++ "\n" ++ rest) = result ++ "\n" ++ moved depth rest

theorem MovesTo.line {line : String} (h : OneLine line) (hne : line ≠ "") (depth : Nat) :
    MovesTo depth line (margin depth ++ line) where
  alone := by simp [moved, lines_of_oneLine h hne]
  followed := moved_append h depth

theorem MovesTo.below {depth : Nat} {a b a' b' : String} (ha : MovesTo depth a a')
    (hb : MovesTo depth b b') : MovesTo depth (a ++ "\n" ++ b) (a' ++ "\n" ++ b') where
  alone := by
    rw [ha.followed, hb.alone]
    simp only [String.append_assoc]
  followed rest := by
    have hrest := ha.followed (b ++ "\n" ++ rest)
    rw [hb.followed] at hrest
    simpa only [String.append_assoc] using hrest

/-- Moving the first text by the depth makes it the second, where a last line stands below. -/
def MovesAbove (depth : Nat) (text result : String) : Prop :=
  ∀ last last', MovesTo depth last last' → MovesTo depth (text ++ last) (result ++ last')

theorem movesAbove_empty (depth : Nat) : MovesAbove depth "" "" := by
  intro last last' hlast
  simpa using hlast

theorem MovesAbove.cons {depth : Nat} {a b a' b' : String} (ha : MovesTo depth a a')
    (hb : MovesAbove depth b b') : MovesAbove depth (a ++ "\n" ++ b) (a' ++ "\n" ++ b') := by
  intro last last' hlast
  simpa only [String.append_assoc] using ha.below (hb last last' hlast)

end TinyScript.Text
