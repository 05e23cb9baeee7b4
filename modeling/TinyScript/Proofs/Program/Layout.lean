import TinyScript.Program.Render
import TinyScript.Proofs.Program.Sentence
import TinyScript.Proofs.Text.Indentation

/-!
# Lines at their depth

The renderer moves the text of each statement to the right once for every block around it. The
printer here knows the depth beforehand and writes each line once, where it belongs
(`Statement.printAt`). As long as no token has a line end in it, both write the same text, whatever
the depth (`blocks_indented_by_depth`).
-/

namespace TinyScript

/-! ## The printer -/

/-- A line at a depth, without a line feed. -/
def printLine (depth : Nat) (text : String) : String :=
  Text.margin depth ++ text

/-- A line that opens a block, the lines of its members, and the line that closes it. -/
def printBlock (depth : Nat) (head members : String) : String :=
  printLine depth (head ++ "\x7b") ++ "\n" ++ members ++ printLine depth "\x7d"

mutual

/-- The lines of a statement at a depth, with a line feed between any two. -/
def Statement.printAt (depth : Nat) : Statement → String
  | .assign target value => printLine depth (target.spelling ++ " = " ++ value.render)
  | .block body => printBlock depth "" (Statement.printAllAt (depth + 1) body)
  | .ifElse condition thenBlock elseBlock =>
    printBlock depth ("if " ++ condition.render ++ " ")
        (Statement.printAllAt (depth + 1) thenBlock) ++ "\n" ++
      printBlock depth "else " (Statement.printAllAt (depth + 1) elseBlock)
  | .while condition body =>
    printBlock depth ("while " ++ condition.render ++ " ") (Statement.printAllAt (depth + 1) body)
  | .repeat count body =>
    printBlock depth ("repeat " ++ count.render ++ " ") (Statement.printAllAt (depth + 1) body)
  | .func name parameters body =>
    printBlock depth
      ("func " ++ name.spelling ++ "(" ++ " ".intercalate (parameters.map Token.spelling) ++ ") ")
      (Statement.printAllAt (depth + 1) body)
  | .return value => printLine depth ("return " ++ value.render)
  | .print value => printLine depth ("print " ++ value.render)

/-- The lines of statements at a depth, with a line feed behind each. -/
def Statement.printAllAt (depth : Nat) : List Statement → String
  | [] => ""
  | statement :: statements =>
    statement.printAt depth ++ "\n" ++ Statement.printAllAt depth statements

end

/-! ## Expressions stand on one line -/

theorem oneLine_space : Text.OneLine " " := by decide

theorem oneLine_names {names : List Token} (h : ∀ name ∈ names, Text.OneLine name.spelling) :
    Text.OneLine (" ".intercalate (names.map Token.spelling)) := by
  apply Text.OneLine.intercalate oneLine_space
  simpa using h

mutual

theorem Expr.oneLine_render :
    ∀ expr : Expr, (∀ token ∈ expr.tokens, Text.OneLine token.spelling) →
      Text.OneLine expr.render
  | .simple token, h => h token (by simp [Expr.tokens])
  | .list elements, h => by
      have helements := Expr.oneLine_renderAll elements fun token htoken =>
        h token (by simp [Expr.tokens, htoken])
      have hpieces := Text.OneLine.intercalate oneLine_space helements
      simp only [Expr.render, Text.oneLine_append]
      exact ⟨⟨by decide, hpieces⟩, by decide⟩
  | .call operator arguments, h => by
      have hoperator := h operator (by simp [Expr.tokens])
      have harguments := Expr.oneLine_renderAll arguments fun token htoken =>
        h token (by simp [Expr.tokens, htoken])
      have hpieces := Text.OneLine.intercalate oneLine_space
        (List.forall_mem_cons.2 ⟨hoperator, harguments⟩)
      simp only [Expr.render, Text.oneLine_append]
      exact ⟨⟨by decide, hpieces⟩, by decide⟩

theorem Expr.oneLine_renderAll :
    ∀ exprs : List Expr, (∀ token ∈ Expr.tokensAll exprs, Text.OneLine token.spelling) →
      ∀ piece ∈ Expr.renderAll exprs, Text.OneLine piece
  | [], _ => by simp [Expr.renderAll]
  | expr :: exprs, h => by
      rw [Expr.renderAll, List.forall_mem_cons]
      exact ⟨Expr.oneLine_render expr fun token htoken =>
          h token (by simp [Expr.tokensAll, htoken]),
        Expr.oneLine_renderAll exprs fun token htoken =>
          h token (by simp [Expr.tokensAll, htoken])⟩

end

/-- A word and an expression, as in front of the block of a loop. -/
theorem oneLine_headed {word : String} {expr : Expr} (hword : Text.OneLine word)
    (hexpr : Text.OneLine expr.render) : Text.OneLine (word ++ expr.render ++ " ") := by
  rw [Text.oneLine_append, Text.oneLine_append]
  exact ⟨⟨hword, hexpr⟩, oneLine_space⟩

/-! ## Moving what is printed -/

theorem movesTo_printLine {text : String} (h : Text.OneLine text) (hne : text ≠ "")
    (shift depth : Nat) :
    Text.MovesTo shift (printLine depth text) (printLine (shift + depth) text) := by
  have hline : Text.OneLine (printLine depth text) :=
    Text.oneLine_append.2 ⟨Text.oneLine_margin depth, h⟩
  have hfilled : printLine depth text ≠ "" := by
    simp [printLine, hne]
  have hmoved := Text.MovesTo.line hline hfilled shift
  rwa [printLine, ← String.append_assoc, ← Text.margin_add] at hmoved

theorem movesTo_printBlock {head members members' : String} {shift : Nat}
    (h : Text.OneLine head) (hmembers : Text.MovesAbove shift members members') (depth : Nat) :
    Text.MovesTo shift (printBlock depth head members)
      (printBlock (shift + depth) head members') := by
  have hhead : Text.OneLine (head ++ "\x7b") := Text.oneLine_append.2 ⟨h, by decide⟩
  have hopen := movesTo_printLine hhead (by simp) shift depth
  have hclose := movesTo_printLine (show Text.OneLine "\x7d" by decide) (by decide) shift depth
  have hblock := hopen.below (hmembers _ _ hclose)
  simpa only [printBlock, String.append_assoc] using hblock

mutual

/-- What is printed at one depth is what is printed at another, moved there. -/
theorem Statement.movesTo_printAt :
    ∀ (statement : Statement) (shift depth : Nat),
      (∀ token ∈ statement.tokens, Text.OneLine token.spelling) →
        Text.MovesTo shift (statement.printAt depth) (statement.printAt (shift + depth))
  | .assign target value, shift, depth, h => by
      have htarget := h target (by simp [Statement.tokens])
      have hvalue := value.oneLine_render fun token htoken =>
        h token (by simp [Statement.tokens, htoken])
      have hline : Text.OneLine (target.spelling ++ " = " ++ value.render) := by
        rw [Text.oneLine_append, Text.oneLine_append]
        exact ⟨⟨htarget, by decide⟩, hvalue⟩
      exact movesTo_printLine hline (by simp) shift depth
  | .block body, shift, depth, h => by
      have hbody := Statement.movesAbove_printAllAt body shift (depth + 1) fun token htoken =>
        h token (by simp [Statement.tokens, bracedTokens, htoken])
      exact movesTo_printBlock (by decide) hbody depth
  | .ifElse condition thenBlock elseBlock, shift, depth, h => by
      have hcondition := condition.oneLine_render fun token htoken =>
        h token (by simp [Statement.tokens, htoken])
      have hhead := oneLine_headed (show Text.OneLine "if " by decide) hcondition
      have hthen := Statement.movesAbove_printAllAt thenBlock shift (depth + 1)
        fun token htoken => h token (by simp [Statement.tokens, bracedTokens, htoken])
      have helse := Statement.movesAbove_printAllAt elseBlock shift (depth + 1)
        fun token htoken => h token (by simp [Statement.tokens, bracedTokens, htoken])
      exact (movesTo_printBlock hhead hthen depth).below
        (movesTo_printBlock (by decide) helse depth)
  | .while condition body, shift, depth, h => by
      have hcondition := condition.oneLine_render fun token htoken =>
        h token (by simp [Statement.tokens, htoken])
      have hhead := oneLine_headed (show Text.OneLine "while " by decide) hcondition
      have hbody := Statement.movesAbove_printAllAt body shift (depth + 1) fun token htoken =>
        h token (by simp [Statement.tokens, bracedTokens, htoken])
      exact movesTo_printBlock hhead hbody depth
  | .repeat count body, shift, depth, h => by
      have hcount := count.oneLine_render fun token htoken =>
        h token (by simp [Statement.tokens, htoken])
      have hhead := oneLine_headed (show Text.OneLine "repeat " by decide) hcount
      have hbody := Statement.movesAbove_printAllAt body shift (depth + 1) fun token htoken =>
        h token (by simp [Statement.tokens, bracedTokens, htoken])
      exact movesTo_printBlock hhead hbody depth
  | .func name parameters body, shift, depth, h => by
      have hname := h name (by simp [Statement.tokens])
      have hparameters := oneLine_names fun parameter (hparameter : parameter ∈ parameters) =>
        h parameter (by simp [Statement.tokens, hparameter])
      have hbody := Statement.movesAbove_printAllAt body shift (depth + 1) fun token htoken =>
        h token (by simp [Statement.tokens, bracedTokens, htoken])
      refine movesTo_printBlock ?_ hbody depth
      simp only [Text.oneLine_append]
      exact ⟨⟨⟨⟨by decide, hname⟩, by decide⟩, hparameters⟩, by decide⟩
  | .return value, shift, depth, h => by
      have hvalue := value.oneLine_render fun token htoken =>
        h token (by simp [Statement.tokens, htoken])
      exact movesTo_printLine (Text.oneLine_append.2 ⟨by decide, hvalue⟩) (by simp) shift depth
  | .print value, shift, depth, h => by
      have hvalue := value.oneLine_render fun token htoken =>
        h token (by simp [Statement.tokens, htoken])
      exact movesTo_printLine (Text.oneLine_append.2 ⟨by decide, hvalue⟩) (by simp) shift depth

theorem Statement.movesAbove_printAllAt :
    ∀ (statements : List Statement) (shift depth : Nat),
      (∀ token ∈ Statement.tokensAll statements, Text.OneLine token.spelling) →
        Text.MovesAbove shift (Statement.printAllAt depth statements)
          (Statement.printAllAt (shift + depth) statements)
  | [], shift, _, _ => Text.movesAbove_empty shift
  | statement :: statements, shift, depth, h =>
      .cons
        (statement.movesTo_printAt shift depth fun token htoken =>
          h token (by simp [Statement.tokensAll, htoken]))
        (Statement.movesAbove_printAllAt statements shift depth fun token htoken =>
          h token (by simp [Statement.tokensAll, htoken]))

end

/-! ## What is rendered -/

theorem printLine_zero (text : String) : printLine 0 text = text := by
  change "" ++ text = text
  exact String.empty_append

/-- Braces around statements that have been rendered are a block at no depth. -/
theorem append_renderBraces {texts : List String} {members : String}
    (h : String.join (texts.map Text.indent) = members) (head : String) :
    head ++ renderBraces texts = printBlock 0 head members := by
  rw [renderBraces, printBlock, printLine_zero, printLine_zero, h]
  simp only [String.append_assoc]
  rfl

mutual

theorem Statement.render_eq_printAt :
    ∀ statement : Statement, (∀ token ∈ statement.tokens, Text.OneLine token.spelling) →
      statement.render = statement.printAt 0
  | .assign target value, _ => (printLine_zero _).symm
  | .return value, _ => (printLine_zero _).symm
  | .print value, _ => (printLine_zero _).symm
  | .block body, h => by
      have hbody := Statement.join_indent_renderAll body fun token htoken =>
        h token (by simp [Statement.tokens, bracedTokens, htoken])
      rw [Statement.render, Statement.printAt, ← append_renderBraces hbody, String.empty_append]
  | .ifElse condition thenBlock elseBlock, h => by
      have hthen := Statement.join_indent_renderAll thenBlock fun token htoken =>
        h token (by simp [Statement.tokens, bracedTokens, htoken])
      have helse := Statement.join_indent_renderAll elseBlock fun token htoken =>
        h token (by simp [Statement.tokens, bracedTokens, htoken])
      rw [Statement.render, Statement.printAt, ← append_renderBraces hthen,
        ← append_renderBraces helse]
      simp only [String.append_assoc]
      rfl
  | .while condition body, h => by
      have hbody := Statement.join_indent_renderAll body fun token htoken =>
        h token (by simp [Statement.tokens, bracedTokens, htoken])
      exact append_renderBraces hbody _
  | .repeat count body, h => by
      have hbody := Statement.join_indent_renderAll body fun token htoken =>
        h token (by simp [Statement.tokens, bracedTokens, htoken])
      exact append_renderBraces hbody _
  | .func name parameters body, h => by
      have hbody := Statement.join_indent_renderAll body fun token htoken =>
        h token (by simp [Statement.tokens, bracedTokens, htoken])
      exact append_renderBraces hbody _

theorem Statement.join_indent_renderAll :
    ∀ statements : List Statement,
      (∀ token ∈ Statement.tokensAll statements, Text.OneLine token.spelling) →
        String.join ((Statement.renderAll statements).map Text.indent) =
          Statement.printAllAt 1 statements
  | [], _ => rfl
  | statement :: statements, h => by
      have hfirst : ∀ token ∈ statement.tokens, Text.OneLine token.spelling := fun token htoken =>
        h token (by simp [Statement.tokensAll, htoken])
      have hothers := Statement.join_indent_renderAll statements fun token htoken =>
        h token (by simp [Statement.tokensAll, htoken])
      have hmoved : Text.indent statement.render = statement.printAt 1 ++ "\n" := by
        rw [Statement.render_eq_printAt statement hfirst, Text.indent_eq_moved]
        exact (statement.movesTo_printAt 1 0 hfirst).alone
      rw [Statement.renderAll, List.map_cons, String.join_cons, hothers, hmoved,
        Statement.printAllAt]

end

/-- Where no token has a line end in it, a rendered statement is what the printer writes at depth
zero, and its lines behind a margin are what the printer writes at the depth of the margin. -/
theorem blocks_indented_by_depth {statement : Statement}
    (h : ∀ token ∈ statement.tokens, Text.OneLine token.spelling) :
    statement.render = statement.printAt 0 ∧
      ∀ depth, Text.moved depth statement.render = statement.printAt depth ++ "\n" := by
  have hrender := statement.render_eq_printAt h
  refine ⟨hrender, fun depth => ?_⟩
  rw [hrender]
  exact (statement.movesTo_printAt depth 0 h).alone

/-- A function with a choice in it, whose first branch holds a loop over an empty block. -/
def nestedChoice : Statement :=
  .func ⟨"f"⟩ [⟨"a"⟩, ⟨"b"⟩]
    [.ifElse (.call ⟨"<"⟩ [.simple ⟨"a"⟩, .simple ⟨"b"⟩])
      [.while (.simple ⟨"a"⟩) []] [.print (.list [.simple ⟨"b"⟩, .simple ⟨"'\x7b'"⟩])]]

theorem nestedChoice_indented :
    (∀ token ∈ nestedChoice.tokens, Text.OneLine token.spelling) ∧
      nestedChoice.render = nestedChoice.printAt 0 ∧
      nestedChoice.printAt 0 = "func f(a b) \x7b\n  if (< a b) \x7b\n    while a \x7b\n" ++
        "    \x7d\n  \x7d\n  else \x7b\n    print [b '\x7b']\n  \x7d\n\x7d" ∧
      Text.moved 3 nestedChoice.render = nestedChoice.printAt 3 ++ "\n" := by
  have hlines : ∀ token ∈ nestedChoice.tokens, Text.OneLine token.spelling := by
    decide +kernel
  obtain ⟨hrender, hmoved⟩ := blocks_indented_by_depth hlines
  exact ⟨hlines, hrender, by decide +kernel, hmoved 3⟩

end TinyScript
