/-!
# Lines

A list is cut into lines after each element that ends a line, so that the lines put back together
are the list. Text is indented line by line.
-/

namespace TinyScript.Text

/-- Puts one more element in front of lines: a line end is a line of its own. -/
def consLine (isEnd : α → Bool) (a : α) (lines : List (List α)) : List (List α) :=
  if isEnd a then [a] :: lines
  else match lines with
    | [] => [[a]]
    | line :: rest => (a :: line) :: rest

/-- Cuts after each line end. No line is empty, and only the last may lack its end. -/
def splitLines (isEnd : α → Bool) (as : List α) : List (List α) :=
  as.foldr (consLine isEnd) []

@[simp] theorem splitLines_nil (isEnd : α → Bool) : splitLines isEnd [] = [] := rfl

@[simp] theorem splitLines_cons (isEnd : α → Bool) (a : α) (as : List α) :
    splitLines isEnd (a :: as) = consLine isEnd a (splitLines isEnd as) := rfl

/-- Nothing is lost and nothing added. -/
theorem flatten_splitLines (isEnd : α → Bool) (as : List α) :
    (splitLines isEnd as).flatten = as := by
  induction as with
  | nil => rfl
  | cons a as ih =>
      rw [splitLines_cons]
      unfold consLine
      split
      · simp [ih]
      · split
        · next h => simp_all
        · next h => rw [h] at ih; simpa using ih

/-! ## Indentation -/

/-- A line without the carriage return that it ends with, if it ends with one. -/
def dropReturn (line : String) : String :=
  if line.back? = some '\r' then .ofList line.toList.dropLast else line

/-- The lines among the pieces between the line feeds of a text. A carriage return before a line
feed belongs to the line end. The last piece, which no line feed follows, is a line as it stands, or
none if it is empty. -/
def linesOfPieces : List String → List String
  | [] => []
  | [last] => if last.isEmpty then [] else [last]
  | piece :: pieces => dropReturn piece :: linesOfPieces pieces

/-- The lines of a text without their ends. -/
def lines (text : String) : List String :=
  linesOfPieces ((text.split '\n').toList.map String.Slice.copy)

theorem lines_eq (text : String) :
    lines text = linesOfPieces ((text.toList.splitOn '\n').map String.ofList) := by
  rw [lines, String.toList_split_char]

/-- Each line of the text, moved two places to the right and ended by a line feed. -/
def indent (text : String) : String :=
  String.join ((lines text).map fun line => "  " ++ line ++ "\n")

end TinyScript.Text
