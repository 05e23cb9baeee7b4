/-!
# Blanks

The characters that separate tokens: those with the Unicode property `White_Space`.
-/

namespace TinyScript.Text

/-- The code points with the property `White_Space`, as closed ranges in increasing order. -/
def blankRanges : List (Nat × Nat) :=
  [(0x09, 0x0D), (0x20, 0x20), (0x85, 0x85), (0xA0, 0xA0), (0x1680, 0x1680),
   (0x2000, 0x200A), (0x2028, 0x2029), (0x202F, 0x202F), (0x205F, 0x205F), (0x3000, 0x3000)]

/-- A character that separates tokens. -/
def isBlank (c : Char) : Bool :=
  blankRanges.any fun range => range.1 ≤ c.toNat && c.toNat ≤ range.2

/-- The text without the blanks it starts with. -/
def skipBlanks (text : List Char) : List Char :=
  text.dropWhile isBlank

theorem length_skipBlanks_le (text : List Char) :
    (skipBlanks text).length ≤ text.length :=
  (List.dropWhile_sublist isBlank).length_le

/-- What is left after skipping does not start with a blank. -/
theorem isBlank_head_skipBlanks {text rest : List Char} {c : Char}
    (h : skipBlanks text = c :: rest) : isBlank c = false := by
  induction text with
  | nil => simp [skipBlanks] at h
  | cons d text ih =>
      by_cases hd : isBlank d
      · exact ih (by simpa [skipBlanks, hd] using h)
      · simp only [skipBlanks, List.dropWhile_cons, hd] at h
        simp_all

end TinyScript.Text
