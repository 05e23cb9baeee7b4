import Mathlib.Data.List.Forall2
import TinyScript.Program.Render
import TinyScript.Proofs.Program.Sentence
import TinyScript.Proofs.Token.Standing

/-!
# How rendered trees are spelled

The text of a tree is cut into the sentence of the tree (`Statement.spells_render` and its
companions), provided that each token of the sentence stands by itself. The proof follows the
renderer: wherever it puts two pieces next to each other, there is a blank or a bracket between the
last token of the one and the first token of the other, and moving lines to the right adds nothing
but blanks.
-/

namespace TinyScript

/-- The text is cut into the tokens if the end of a word follows it. -/
def Spells (text : String) (tokens : List Token) : Prop :=
  ∀ rest, Text.StartsBoundary rest →
    tokensOf (text.toList ++ rest) = tokens ++ tokensOf rest

/-- The text is cut into the tokens whatever follows it. -/
def SpellsClosed (text : String) (tokens : List Token) : Prop :=
  ∀ rest, tokensOf (text.toList ++ rest) = tokens ++ tokensOf rest

theorem SpellsClosed.spells {text : String} {tokens : List Token} (h : SpellsClosed text tokens) :
    Spells text tokens := by
  intro rest _
  exact h rest

theorem Spells.tokensOf_eq {text : String} {tokens : List Token} (h : Spells text tokens) :
    tokensOf text.toList = tokens := by
  simpa using h [] Text.startsBoundary_nil

/-! ## Putting pieces together -/

section

variable {a b : String} {as bs : List Token}

theorem SpellsClosed.append (ha : SpellsClosed a as) (hb : SpellsClosed b bs) :
    SpellsClosed (a ++ b) (as ++ bs) := by
  intro rest
  rw [String.toList_append, List.append_assoc, ha, hb, List.append_assoc]

theorem SpellsClosed.append_spells (ha : SpellsClosed a as) (hb : Spells b bs) :
    Spells (a ++ b) (as ++ bs) := by
  intro rest hrest
  rw [String.toList_append, List.append_assoc, ha, hb rest hrest, List.append_assoc]

/-- A piece that starts with a blank or a bracket ends the word before it. -/
theorem Spells.append_closed (ha : Spells a as) (hb : SpellsClosed b bs)
    (hstart : ∀ rest, Text.StartsBoundary (b.toList ++ rest)) :
    SpellsClosed (a ++ b) (as ++ bs) := by
  intro rest
  rw [String.toList_append, List.append_assoc, ha _ (hstart rest), hb, List.append_assoc]

end

theorem spells_empty : Spells "" [] := by
  intro rest _
  rfl

theorem spells_token {token : Token} (h : token.Stands) : Spells token.spelling [token] := by
  intro rest hrest
  exact tokensOf_stands h hrest

theorem isBlank_space : Text.isBlank ' ' = true := by decide

theorem spellsClosed_space : SpellsClosed " " [] := by
  intro rest
  exact tokensOf_cons_blank isBlank_space rest

theorem startsBoundary_space (rest : List Char) : Text.StartsBoundary (" ".toList ++ rest) :=
  Text.startsBoundary_blank isBlank_space rest

/-- A space behind a piece ends its last word. -/
theorem Spells.append_space {text : String} {tokens : List Token} (h : Spells text tokens) :
    SpellsClosed (text ++ " ") tokens := by
  simpa using h.append_closed spellsClosed_space startsBoundary_space

theorem spellsClosed_bracket {c : Char} (h : isDelimiter c = true) :
    SpellsClosed (.singleton c) [⟨.singleton c⟩] := by
  intro rest
  simpa using tokensOf_delimiter h rest

/-- A bracket behind a piece ends its last word. -/
theorem Spells.append_bracket {text : String} {tokens : List Token} {c : Char}
    (h : Spells text tokens) (hc : isDelimiter c = true) :
    SpellsClosed (text ++ .singleton c) (tokens ++ [⟨.singleton c⟩]) := by
  apply h.append_closed (spellsClosed_bracket hc)
  intro rest
  simpa using Text.startsBoundary_delimiter hc rest

/-- A list of pieces with a space between any two. -/
theorem spells_intercalate {pieces : List String} {sentences : List (List Token)}
    (h : List.Forall₂ Spells pieces sentences) :
    Spells (" ".intercalate pieces) sentences.flatten := by
  induction h with
  | nil => exact spells_empty
  | @cons piece sentence pieces sentences hpiece htail ih =>
      cases htail with
      | nil => simpa using hpiece
      | cons hnext hrest =>
          rw [String.intercalate_cons_cons, List.flatten_cons]
          exact hpiece.append_space.append_spells ih

/-! ## Indentation -/

theorem tokensOf_dropReturn (line : String) :
    tokensOf (Text.dropReturn line).toList = tokensOf line.toList := by
  unfold Text.dropReturn
  split
  · next hback =>
      rw [String.back?_eq] at hback
      obtain ⟨start, hstart⟩ := List.getLast?_eq_some_iff.1 hback
      have hreturn : Text.isBlank '\r' = true := by decide
      rw [String.toList_ofList, hstart, List.dropLast_concat,
        tokensOf_append_cons hreturn, tokensOf_nil, List.append_nil]
  · rfl

/-- The tokens of all pieces stand in the lines: a line end holds none. -/
theorem flatMap_linesOfPieces (pieces : List String) :
    (Text.linesOfPieces pieces).flatMap (fun line => tokensOf line.toList) =
      pieces.flatMap fun piece => tokensOf piece.toList := by
  induction pieces with
  | nil => rfl
  | cons piece pieces ih =>
      cases pieces with
      | nil =>
          rw [Text.linesOfPieces]
          split
          · next hempty => simp [String.isEmpty_iff.1 hempty]
          · rfl
      | cons next pieces =>
          rw [Text.linesOfPieces.eq_3 piece (next :: pieces) (by simp), List.flatMap_cons, ih,
            tokensOf_dropReturn, List.flatMap_cons (x := piece)]

theorem flatMap_lines (text : String) :
    (Text.lines text).flatMap (fun line => tokensOf line.toList) = tokensOf text.toList := by
  rw [Text.lines_eq, flatMap_linesOfPieces, List.flatMap_map]
  simp only [String.toList_ofList]
  rw [← tokensOf_intercalate, List.intercalate_splitOn]

private theorem tokensOf_indentedLine (line : String) (rest : List Char) :
    tokensOf (("  " ++ line ++ "\n").toList ++ rest) =
      tokensOf line.toList ++ tokensOf rest := by
  have hpieces : ("  " ++ line ++ "\n").toList ++ rest =
      ' ' :: ' ' :: (line.toList ++ '\n' :: rest) := by
    simp
  rw [hpieces, tokensOf_cons_blank isBlank_space, tokensOf_cons_blank isBlank_space,
    tokensOf_append_cons isBlank_lineFeed]

/-- Moving a text to the right changes its blanks only, and ends it with a blank. -/
theorem tokensOf_indent (text : String) (rest : List Char) :
    tokensOf ((Text.indent text).toList ++ rest) = tokensOf text.toList ++ tokensOf rest := by
  rw [← flatMap_lines text, Text.indent, String.toList_join]
  induction Text.lines text with
  | nil => rfl
  | cons line lines ih =>
      rw [List.map_cons, List.flatMap_cons, List.flatMap_cons, List.append_assoc,
        tokensOf_indentedLine, ih, List.append_assoc]

theorem spellsClosed_indented {texts : List String} {sentences : List (List Token)}
    (h : List.Forall₂ Spells texts sentences) :
    SpellsClosed (String.join (texts.map Text.indent)) sentences.flatten := by
  intro rest
  rw [String.toList_join]
  induction h with
  | nil => rfl
  | cons htext _ ih =>
      rw [List.map_cons, List.flatMap_cons, List.flatten_cons, List.append_assoc,
        tokensOf_indent, htext.tokensOf_eq, ih, List.append_assoc]

theorem spellsClosed_renderBraces {texts : List String} {sentences : List (List Token)}
    (h : List.Forall₂ Spells texts sentences) :
    SpellsClosed (renderBraces texts) (bracedTokens sentences.flatten) := by
  have hopen : SpellsClosed "\x7b\n" [⟨"\x7b"⟩] := by
    intro rest
    have hbrace := tokensOf_delimiter (show isDelimiter '\x7b' = true by decide) ('\n' :: rest)
    rw [tokensOf_cons_blank isBlank_lineFeed] at hbrace
    exact hbrace
  have hclose : SpellsClosed "\x7d" [⟨"\x7d"⟩] :=
    spellsClosed_bracket (show isDelimiter '\x7d' = true by decide)
  exact (hopen.append (spellsClosed_indented h)).append hclose

/-! ## Trees -/

theorem Expr.tokensAll_eq_flatten (exprs : List Expr) :
    Expr.tokensAll exprs = (exprs.map Expr.tokens).flatten := by
  induction exprs with
  | nil => rfl
  | cons expr exprs ih =>
      rw [Expr.tokensAll, ih, List.map_cons, List.flatten_cons]

theorem Statement.tokensAll_eq_flatten (statements : List Statement) :
    Statement.tokensAll statements = (statements.map Statement.tokens).flatten := by
  rw [Statement.tokensAll_eq_flatMap, List.flatMap_def]

/-- Names with a space between any two. -/
theorem spells_names {names : List Token} (h : ∀ name ∈ names, name.Stands) :
    Spells (" ".intercalate (names.map Token.spelling)) names := by
  have hpieces : List.Forall₂ Spells (names.map Token.spelling) (names.map fun name => [name]) := by
    rw [List.forall₂_map_left_iff, List.forall₂_map_right_iff, List.forall₂_same]
    intro name hname
    exact spells_token (h name hname)
  simpa [← List.flatMap_def] using spells_intercalate hpieces

mutual

theorem Expr.spells_render :
    ∀ expr : Expr, (∀ token ∈ expr.tokens, token.Stands) → Spells expr.render expr.tokens
  | .simple token, h => spells_token (h token (by simp [Expr.tokens]))
  | .list elements, h => by
      have helements := Expr.spells_renderAll elements fun token htoken =>
        h token (by simp [Expr.tokens, htoken])
      have hpieces := spells_intercalate helements
      rw [← Expr.tokensAll_eq_flatten] at hpieces
      have hopen := spellsClosed_bracket (show isDelimiter '[' = true by decide)
      exact ((hopen.append_spells hpieces).append_bracket
        (show isDelimiter ']' = true by decide)).spells
  | .call operator arguments, h => by
      have hoperator : Spells operator.spelling [operator] :=
        spells_token (h operator (by simp [Expr.tokens]))
      have harguments := Expr.spells_renderAll arguments fun token htoken =>
        h token (by simp [Expr.tokens, htoken])
      have hpieces := spells_intercalate (.cons hoperator harguments)
      rw [List.flatten_cons, ← Expr.tokensAll_eq_flatten] at hpieces
      have hopen := spellsClosed_bracket (show isDelimiter '(' = true by decide)
      exact ((hopen.append_spells hpieces).append_bracket
        (show isDelimiter ')' = true by decide)).spells

theorem Expr.spells_renderAll :
    ∀ exprs : List Expr, (∀ token ∈ Expr.tokensAll exprs, token.Stands) →
      List.Forall₂ Spells (Expr.renderAll exprs) (exprs.map Expr.tokens)
  | [], _ => .nil
  | expr :: exprs, h =>
      .cons
        (Expr.spells_render expr fun token htoken => h token (by simp [Expr.tokensAll, htoken]))
        (Expr.spells_renderAll exprs fun token htoken =>
          h token (by simp [Expr.tokensAll, htoken]))

end

/-- A word that announces a statement, and the space behind it. -/
private theorem spellsClosed_word {word : String} (h : Token.Stands ⟨word⟩) :
    SpellsClosed (word ++ " ") [⟨word⟩] :=
  (spells_token h).append_space

/-- A word, an expression and a block, as in a loop or in the first half of a conditional. -/
private theorem spellsClosed_headed {word : String} {expr : Expr} {texts : List String}
    {body : List Token} (hword : Token.Stands ⟨word⟩) (hexpr : Spells expr.render expr.tokens)
    (hbody : SpellsClosed (renderBraces texts) body) :
    SpellsClosed (word ++ " " ++ expr.render ++ " " ++ renderBraces texts)
      (⟨word⟩ :: expr.tokens ++ body) :=
  ((spellsClosed_word hword).append_spells hexpr).append_space.append hbody

mutual

theorem Statement.spells_render :
    ∀ statement : Statement, (∀ token ∈ statement.tokens, token.Stands) →
      Spells statement.render statement.tokens
  | .assign target value, h => by
      have htarget : Spells target.spelling [target] :=
        spells_token (h target (by simp [Statement.tokens]))
      have hequals := spellsClosed_word (h ⟨"="⟩ (by simp [Statement.tokens]))
      have hvalue := Expr.spells_render value fun token htoken =>
        h token (by simp [Statement.tokens, htoken])
      have htext := (htarget.append_space.append hequals).append_spells hvalue
      simpa [Statement.tokens, Statement.render, String.append_assoc] using htext
  | .block body, h => by
      have hbody := Statement.spells_body body fun token htoken =>
        h token (by simp [Statement.tokens, bracedTokens, htoken])
      exact hbody.spells
  | .ifElse condition thenBlock elseBlock, h => by
      have hcondition := Expr.spells_render condition fun token htoken =>
        h token (by simp [Statement.tokens, htoken])
      have hthen := Statement.spells_body thenBlock fun token htoken =>
        h token (by simp [Statement.tokens, bracedTokens, htoken])
      have helse := Statement.spells_body elseBlock fun token htoken =>
        h token (by simp [Statement.tokens, bracedTokens, htoken])
      have hif := spellsClosed_headed (h ⟨"if"⟩ (by simp [Statement.tokens])) hcondition hthen
      have hword := spellsClosed_word (h ⟨"else"⟩ (by simp [Statement.tokens]))
      have hfeed : SpellsClosed "\n" [] := tokensOf_cons_blank isBlank_lineFeed
      have htext := (hif.append (hfeed.append hword)).append helse
      simpa [Statement.tokens, Statement.render, String.append_assoc] using htext.spells
  | .while condition body, h => by
      have hcondition := Expr.spells_render condition fun token htoken =>
        h token (by simp [Statement.tokens, htoken])
      have hbody := Statement.spells_body body fun token htoken =>
        h token (by simp [Statement.tokens, bracedTokens, htoken])
      have hword := h ⟨"while"⟩ (by simp [Statement.tokens])
      exact (spellsClosed_headed hword hcondition hbody).spells
  | .repeat count body, h => by
      have hcount := Expr.spells_render count fun token htoken =>
        h token (by simp [Statement.tokens, htoken])
      have hbody := Statement.spells_body body fun token htoken =>
        h token (by simp [Statement.tokens, bracedTokens, htoken])
      have hword := h ⟨"repeat"⟩ (by simp [Statement.tokens])
      exact (spellsClosed_headed hword hcount hbody).spells
  | .func name parameters body, h => by
      have hword := spellsClosed_word (h ⟨"func"⟩ (by simp [Statement.tokens]))
      have hname : Spells name.spelling [name] :=
        spells_token (h name (by simp [Statement.tokens]))
      have hparameters : Spells _ parameters := spells_names fun parameter hparameter =>
        h parameter (by simp [Statement.tokens, hparameter])
      have hbody := Statement.spells_body body fun token htoken =>
        h token (by simp [Statement.tokens, bracedTokens, htoken])
      have hopen := (hword.append_spells hname).append_bracket
        (show isDelimiter '(' = true by decide)
      have hclose := ((hopen.append_spells hparameters).append_bracket
        (show isDelimiter ')' = true by decide)).append spellsClosed_space
      have htext := hclose.append hbody
      simpa [Statement.tokens, Statement.render, String.append_assoc] using htext.spells
  | .return value, h => by
      have hvalue := Expr.spells_render value fun token htoken =>
        h token (by simp [Statement.tokens, htoken])
      exact (spellsClosed_word (h ⟨"return"⟩ (by simp [Statement.tokens]))).append_spells hvalue
  | .print value, h => by
      have hvalue := Expr.spells_render value fun token htoken =>
        h token (by simp [Statement.tokens, htoken])
      exact (spellsClosed_word (h ⟨"print"⟩ (by simp [Statement.tokens]))).append_spells hvalue

theorem Statement.spells_renderAll :
    ∀ statements : List Statement, (∀ token ∈ Statement.tokensAll statements, token.Stands) →
      List.Forall₂ Spells (Statement.renderAll statements) (statements.map Statement.tokens)
  | [], _ => .nil
  | statement :: statements, h =>
      .cons
        (Statement.spells_render statement fun token htoken =>
          h token (by simp [Statement.tokensAll, htoken]))
        (Statement.spells_renderAll statements fun token htoken =>
          h token (by simp [Statement.tokensAll, htoken]))

theorem Statement.spells_body (body : List Statement)
    (h : ∀ token ∈ Statement.tokensAll body, token.Stands) :
    SpellsClosed (renderBraces (Statement.renderAll body))
      (bracedTokens (Statement.tokensAll body)) := by
  have htexts := spellsClosed_renderBraces (Statement.spells_renderAll body h)
  rwa [← Statement.tokensAll_eq_flatten] at htexts

end

/-- The text of a tree of any goal. -/
def Goal.render : (goal : Goal) → goal.Tree → String
  | .statement => Statement.render
  | .expression => Expr.render
  | .block => Block.render

/-- The text of a tree is cut into the sentence of the tree. -/
theorem Goal.spells_render (goal : Goal) (tree : goal.Tree)
    (h : ∀ token ∈ goal.tokens tree, token.Stands) :
    Spells (goal.render tree) (goal.tokens tree) := by
  cases goal with
  | statement => exact Statement.spells_render tree h
  | expression => exact Expr.spells_render tree h
  | block =>
      have hbody := Statement.spells_body tree fun token htoken =>
        h token (by simp [Goal.tokens, Block.tokens, bracedTokens, htoken])
      exact hbody.spells

end TinyScript
