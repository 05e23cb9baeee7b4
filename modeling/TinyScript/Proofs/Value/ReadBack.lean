import TinyScript.Proofs.Number.Writing
import TinyScript.Proofs.Value.Order

/-!
# Printed lists are read back

A list shows each element as a literal or as a list again, so its text is that of an expression
(`render_list`). If each of these literals is one word and denotes its element, then the expression
is read from the text, and it evaluates to the list (`printed_lists_read_back`). A number has such a
literal if it is finite and not `-0`, a character if it is no blank, and a string if it holds
neither blanks nor double quotes.
-/

namespace TinyScript

/-! ## Characters of numerals -/

theorem Text.isBlank_of_isDigit {c : Char} (h : c.isDigit = true) : isBlank c = false := by
  have hdigit : 48 ≤ c.toNat ∧ c.toNat ≤ 57 := by
    simpa [Char.isDigit, UInt32.le_iff_toNat_le] using h
  simp [isBlank, blankRanges]
  omega

theorem isDelimiter_of_isDigit {c : Char} (h : c.isDigit = true) : isDelimiter c = false := by
  simp only [isDelimiter, List.mem_cons, List.not_mem_nil, or_false, decide_eq_false_iff_not]
  rintro (rfl | rfl | rfl | rfl | rfl | rfl) <;> exact absurd h (by decide)

namespace Number.Numeral

variable {chars : List Char} {c : Char}

/-- Besides digits there are only signs, a point and the mark of the exponent. -/
theorem IsWritten.mem_cases (h : IsWritten chars) (hc : c ∈ chars) :
    c.isDigit = true ∨ c ∈ ['-', '+', '.', 'e', 'E'] := by
  have hdigit : ∀ {digits : List Char}, digits.all Char.isDigit = true → c ∈ digits →
      c.isDigit = true ∨ c ∈ ['-', '+', '.', 'e', 'E'] :=
    fun hdigits hmem => .inl (List.all_eq_true.1 hdigits c hmem)
  obtain ⟨hsign, hwhole, hfraction, hexponent⟩ := h
  simp only [List.mem_append] at hc
  rcases hc with hc | hc | hc | hc
  · rcases hsign with rfl | rfl <;> simp_all
  · exact hdigit hwhole.2 hc
  · cases hfraction with
    | absent => cases hc
    | point hdigits =>
        rcases List.mem_cons.1 hc with rfl | hc
        · exact .inr (by decide)
        · exact hdigit hdigits hc
  · cases hexponent with
    | absent => cases hc
    | marked hmark hsign hdigits =>
        rcases List.mem_cons.1 hc with rfl | hc
        · rcases hmark with rfl | rfl <;> exact .inr (by decide)
        · rcases List.mem_append.1 hc with hc | hc
          · rcases hsign with rfl | rfl | rfl <;> simp_all
          · exact hdigit hdigits.2 hc

/-- No character of a numeral ends a word or starts a quoted one. -/
theorem IsWritten.plain (h : IsWritten chars) (hc : c ∈ chars) :
    Text.isBlank c = false ∧ isDelimiter c = false ∧ c ≠ '"' ∧ c ≠ '\'' := by
  rcases h.mem_cases hc with hdigit | hsign
  · exact ⟨Text.isBlank_of_isDigit hdigit, isDelimiter_of_isDigit hdigit,
      ne_of_isDigit hdigit (by decide), ne_of_isDigit hdigit (by decide)⟩
  · simp only [List.mem_cons, List.not_mem_nil, or_false] at hsign
    rcases hsign with rfl | rfl | rfl | rfl | rfl <;> decide

theorem IsWritten.ne_nil (h : IsWritten chars) : chars ≠ [] := by
  obtain ⟨-, hwhole, -, -⟩ := h
  have hsome := hwhole.1
  simp [hsome]

end Number.Numeral

/-! ## Literals that stand by themselves -/

namespace TokenKind

/-- A word that starts with a quote is a string, a character or nothing. -/
theorem classify_of_quote {spelling : String} {quote : Char} {chars : List Char}
    (hquote : quote = '"' ∨ quote = '\'') (hchars : spelling.toList = quote :: chars) :
    classify spelling =
      if isString (quote :: chars) then .stringLiteral
      else if isCharacter (quote :: chars) then .charLiteral
      else .unknown := by
  have hfree : spelling ∉ fixedSpellings := by
    intro hfixed
    have hhead := head?_of_mem_fixedSpellings spelling hfixed
    rw [hchars] at hhead
    rcases hquote with rfl | rfl
    · exact hhead.1 rfl
    · exact hhead.2 rfl
  simp only [fixedSpellings, List.mem_append, not_or] at hfree
  unfold classify
  simp [hfree, hchars, isNumber_quote hquote, isIdentifier_quote hquote]

end TokenKind

namespace Token

/-- The token is cut off where a word ends behind it, and it is a literal for the value. -/
structure Shows (token : Token) (value : Value) : Prop where
  stands : token.Stands
  denotes : token.Denotes value

theorem Shows.of_isLexeme {token : Token} {value : Value} (hlexeme : token.IsLexeme)
    (hdenotes : token.Denotes value) : token.Shows value where
  stands := by
    apply stands_of_isLexeme hlexeme
    intro hunknown
    have hliteral := hdenotes.isLiteral
    rw [hunknown] at hliteral
    cases hliteral
  denotes := hdenotes

/-- A word without quotes and brackets goes on up to the next blank. -/
theorem isLexeme_of_plain {token : Token} (hne : token.spelling.toList ≠ [])
    (hplain : ∀ c ∈ token.spelling.toList,
      Text.isBlank c = false ∧ isDelimiter c = false ∧ c ≠ '"' ∧ c ≠ '\'') : token.IsLexeme := by
  obtain ⟨c, chars, hchars⟩ := List.exists_cons_of_ne_nil hne
  rw [hchars] at hplain
  obtain ⟨hblank, hdelimiter, hstring, hcharacter⟩ := hplain c (List.mem_cons_self ..)
  refine ⟨c, chars, hblank, ?_⟩
  rw [hchars, Lexeme.first_plain hdelimiter hstring hcharacter, List.takeWhile_eq_self_iff.2]
  intro d hd
  simp [hplain d (List.mem_cons_of_mem c hd)]

theorem shows_number {x : Number} (hfinite : x.IsFinite) (hzero : x ≠ Number.negativeZero) :
    Shows ⟨Value.numberText x⟩ (.number x) := by
  obtain ⟨numeral, hread, hvalue⟩ := Number.exists_numeral_numberText hfinite hzero
  have hwritten := Number.Numeral.isSome_read?_iff.1 (Option.isSome_iff_exists.2 ⟨_, hread⟩)
  have htext := Number.ofText?_of_read? hread
  rw [String.ofList_toList, hvalue] at htext
  apply Shows.of_isLexeme
  · exact isLexeme_of_plain hwritten.ne_nil fun c hc => hwritten.plain hc
  · exact .number (TokenKind.classify_eq_numberLiteral_iff.2 hwritten) htext

theorem shows_boolean (b : Bool) : Shows ⟨toString b⟩ (.boolean b) := by
  apply Shows.of_isLexeme
  · cases b with
    | false => exact ⟨'f', ['a', 'l', 's', 'e'], by decide, by decide⟩
    | true => exact ⟨'t', ['r', 'u', 'e'], by decide, by decide⟩
  · cases b <;> exact .boolean (by decide) rfl

theorem shows_character {c : Char} (hblank : Text.isBlank c = false) :
    Shows ⟨"'" ++ .singleton c ++ "'"⟩ (.character c) := by
  have hchars : ("'" ++ .singleton c ++ "'" : String).toList = ['\'', c, '\''] := by simp
  have hquote : Text.isBlank '\'' = false := by decide
  have hfeed : c ≠ '\n' := by
    rintro rfl
    exact absurd isBlank_lineFeed (by rw [hblank]; decide)
  apply Shows.of_isLexeme
  · refine ⟨'\'', [c, '\''], hquote, ?_⟩
    rw [hchars, Lexeme.first_character]
    simp [hblank, hquote]
  · refine .character ?_ hchars
    rw [kind, TokenKind.classify_of_quote (.inr rfl) hchars]
    simp [TokenKind.isString, TokenKind.isCharacter, hfeed]

theorem shows_string {text : String}
    (h : ∀ c ∈ text.toList, Text.isBlank c = false ∧ c ≠ '"') :
    Shows ⟨"\"" ++ text ++ "\""⟩ (.string text) := by
  have hchars : ("\"" ++ text ++ "\"").toList = '"' :: (text.toList ++ ['"']) := by simp
  have hclosed : (text.toList ++ ['"']).dropWhile (· ≠ '"') = ['"'] := by
    rw [List.dropWhile_append_of_pos]
    · rfl
    · intro c hc
      simpa using (h c hc).2
  apply Shows.of_isLexeme
  · refine ⟨'"', text.toList ++ ['"'], by decide, ?_⟩
    rw [hchars, Lexeme.first_string, Lexeme.stringTail_closed h]
  · refine .string ?_ rfl
    rw [kind, TokenKind.classify_of_quote (.inl rfl) hchars, TokenKind.isString, hclosed]
    rfl

end Token

/-! ## Values as expressions -/

namespace Value

mutual

/-- The expression by which a list shows the value. -/
def toExpr : Value → Expr
  | number x => .simple ⟨numberText x⟩
  | boolean b => .simple ⟨toString b⟩
  | character c => .simple ⟨"'" ++ .singleton c ++ "'"⟩
  | string text => .simple ⟨"\"" ++ text ++ "\""⟩
  | list elements => .list (toExprs elements)

def toExprs : List Value → List Expr
  | [] => []
  | element :: elements => element.toExpr :: toExprs elements

end

theorem toExprs_eq_map (elements : List Value) : toExprs elements = elements.map toExpr := by
  induction elements with
  | nil => rfl
  | cons element elements ih => rw [toExprs, ih, List.map_cons]

theorem renderElements_eq :
    ∀ elements : List Value, renderElements elements = Expr.renderAll (toExprs elements)
  | [] => rfl
  | .number x :: elements => by
      simp only [renderElements, toExprs, Expr.renderAll, renderElements_eq elements]
      rfl
  | .boolean b :: elements => by
      simp only [renderElements, toExprs, Expr.renderAll, renderElements_eq elements]
      cases b <;> rfl
  | .character c :: elements => by
      simp only [renderElements, toExprs, Expr.renderAll, renderElements_eq elements]
      rfl
  | .string text :: elements => by
      simp only [renderElements, toExprs, Expr.renderAll, renderElements_eq elements]
      rfl
  | .list inner :: elements => by
      simp only [renderElements, toExprs, Expr.renderAll, renderElements_eq elements, toExpr,
        Expr.render, ← renderElements_eq inner]
      rfl

/-- The text of a list is that of an expression. -/
theorem render_list (elements : List Value) :
    (list elements).render = (Expr.list (elements.map toExpr)).render := by
  rw [render, Expr.render, renderElements_eq, toExprs_eq_map]

/-- The value is shown by literals that denote it, within brackets if it is a list. -/
inductive Denotable : Value → Prop
  | number {x : Number} (hfinite : x.IsFinite) (hzero : x ≠ Number.negativeZero) :
      Denotable (.number x)
  | boolean (b : Bool) : Denotable (.boolean b)
  | character {c : Char} (h : Text.isBlank c = false) : Denotable (.character c)
  | string {text : String} (h : ∀ c ∈ text.toList, Text.isBlank c = false ∧ c ≠ '"') :
      Denotable (.string text)
  | list {elements : List Value} (h : ∀ element ∈ elements, element.Denotable) :
      Denotable (.list elements)

end Value

/-! ## Reading the expressions -/

/-- The expression is read from its text, and it evaluates to the value. The size of the value is
at least the depth of the expression, so it is bound enough. -/
structure Expr.Restores (expr : Expr) (value : Value) : Prop where
  wellFormed : expr.wellFormed = true
  stands : ∀ token ∈ expr.tokens, token.Stands
  evaluates : ∀ (bound : Nat) (context : Context), sizeOf value ≤ bound →
    evaluate bound expr context = (.done value, context)

theorem Value.sizeOf_pos (value : Value) : 0 < sizeOf value := by
  cases value <;> simp only [Value.number.sizeOf_spec, Value.boolean.sizeOf_spec,
    Value.character.sizeOf_spec, Value.string.sizeOf_spec, Value.list.sizeOf_spec] <;> omega

theorem Token.Shows.restores {token : Token} {value : Value} (h : token.Shows value) :
    (Expr.simple token).Restores value where
  wellFormed := by
    rw [Expr.wellFormed, Token.isSimple, h.denotes.isLiteral, Bool.or_true]
  stands := by
    intro other hother
    rw [Expr.tokens, List.mem_singleton] at hother
    exact hother ▸ h.stands
  evaluates := by
    intro bound context hbound
    obtain ⟨bound, rfl⟩ :=
      Nat.exists_eq_add_of_lt (Nat.lt_of_lt_of_le value.sizeOf_pos hbound)
    exact evaluate_literal h.denotes _ context

theorem Expr.Restores.list {elements : List Value}
    (h : ∀ element ∈ elements, element.toExpr.Restores element) :
    (Expr.list (elements.map Value.toExpr)).Restores (.list elements) where
  wellFormed := by
    rw [Expr.wellFormed, Expr.wellFormedAll_eq_all, List.all_map, List.all_eq_true]
    exact fun element helement => (h element helement).wellFormed
  stands := by
    have hopen : Token.Stands ⟨"["⟩ :=
      stands_of_isLexeme ⟨'[', [], by decide, by decide⟩ (by decide)
    have hclose : Token.Stands ⟨"]"⟩ :=
      stands_of_isLexeme ⟨']', [], by decide, by decide⟩ (by decide)
    intro token htoken
    simp only [Expr.tokens, Expr.tokensAll_eq_flatten, List.map_map, List.cons_append,
      List.mem_cons, List.mem_append, List.mem_flatten, List.mem_map, List.not_mem_nil,
      or_false] at htoken
    rcases htoken with rfl | ⟨_, ⟨element, helement, rfl⟩, htoken⟩ | rfl
    · exact hopen
    · exact (h element helement).stands token htoken
    · exact hclose
  evaluates := by
    intro bound context hbound
    rw [Value.list.sizeOf_spec] at hbound
    obtain ⟨bound, rfl⟩ := Nat.exists_eq_add_of_le' (Nat.le_of_add_right_le hbound)
    apply evaluate_list
    rw [List.forall₂_map_left_iff, List.forall₂_same]
    intro element helement
    have hsmaller := List.sizeOf_lt_of_mem helement
    exact (h element helement).evaluates bound context (by omega)

theorem Value.Denotable.restores {value : Value} (h : value.Denotable) :
    value.toExpr.Restores value := by
  induction h with
  | number hfinite hzero => exact (Token.shows_number hfinite hzero).restores
  | boolean b => exact (Token.shows_boolean b).restores
  | character h => exact (Token.shows_character h).restores
  | string h => exact (Token.shows_string h).restores
  | list _ ih =>
      rw [toExpr, toExprs_eq_map]
      exact .list ih

/-- An expression is read from its text to the end. -/
theorem Expr.Restores.parse {expr : Expr} {value : Value} (h : expr.Restores value) :
    ∃ rest, parseExpression (.ofText expr.render) = (.ok expr, rest) ∧
      rest.drain = ([], none) := by
  have hspells := Expr.spells_render expr h.stands
  have hdrain : (TokenStream.ofText expr.render).drain = (expr.tokens ++ [], none) := by
    rw [TokenStream.drain_ofText, hspells.tokensOf_eq, List.append_nil]
  exact Goal.expression.readBy_run.complete h.wellFormed hdrain

/-! ## Lists -/

variable {us vs : List Value}

/-- The expression of a list is read from the text of the list. -/
theorem Value.Denotable.parse (h : (Value.list us).Denotable) :
    ∃ rest, parseExpression (.ofText (Value.list us).render) =
        (.ok (Value.list us).toExpr, rest) ∧
      rest.drain = ([], none) := by
  have htext : (Value.list us).render = (Value.list us).toExpr.render := by
    rw [Value.render_list, Value.toExpr, Value.toExprs_eq_map]
  rw [htext]
  exact h.restores.parse

theorem Value.compare_list_eq_iff :
    (Value.list us).compare (.list vs) = .ok .eq ↔
      (Value.list us).render = (Value.list vs).render := by
  rw [Value.compare, Except.ok.injEq, Value.compareText]
  exact compareOfLessAndEq_eq_eq String.le_refl String.not_le

/-- Lists with one text are one list, since their common expression evaluates to both. -/
theorem Value.Denotable.eq_of_render (hu : (Value.list us).Denotable)
    (hv : (Value.list vs).Denotable)
    (h : (Value.list us).render = (Value.list vs).render) : Value.list us = .list vs := by
  obtain ⟨_, hfirst, -⟩ := hu.parse
  obtain ⟨_, hsecond, -⟩ := hv.parse
  rw [h, hsecond] at hfirst
  injection hfirst with hexpr
  injection hexpr with hexpr
  have hleft := hu.restores.evaluates (max (sizeOf (Value.list us)) (sizeOf (Value.list vs))) {}
    (Nat.le_max_left ..)
  have hright := hv.restores.evaluates (max (sizeOf (Value.list us)) (sizeOf (Value.list vs))) {}
    (Nat.le_max_right ..)
  rw [← hexpr, hright] at hleft
  injection hleft with hvalue
  injection hvalue with hvalue
  exact hvalue.symm

/-- From the text of a list whose literals denote its elements an expression is read, which takes up
the whole text. In every context it evaluates to the list and does nothing else. So two such lists
are equal in the order of lists, which goes by text, only if they are the same. -/
theorem printed_lists_read_back :
    (∀ elements : List Value, (Value.list elements).Denotable →
      ∃ expr rest, parseExpression (.ofText (Value.list elements).render) = (.ok expr, rest) ∧
        rest.drain = ([], none) ∧
        ∃ enough, ∀ bound, enough ≤ bound → ∀ context : Context,
          evaluate bound expr context = (.done (.list elements), context)) ∧
    ∀ us vs : List Value, (Value.list us).Denotable → (Value.list vs).Denotable →
      ((Value.list us).compare (.list vs) = .ok .eq ↔ Value.list us = .list vs) := by
  constructor
  · intro elements h
    obtain ⟨rest, hparse, hrest⟩ := h.parse
    exact ⟨_, rest, hparse, hrest, _, fun bound hbound context =>
      h.restores.evaluates bound context hbound⟩
  · intro us vs hu hv
    rw [Value.compare_list_eq_iff]
    exact ⟨hu.eq_of_render hv, congrArg Value.render⟩

/-- Quotes and brackets within quotes, nothing within quotes or brackets, and a number. -/
def quotedElements : List Value :=
  [.character '"', .character '\'', .character ']', .string "[a]\x7b'(", .string "", .list [],
    .list [.list [.boolean false], .number ⟨0xC004000000000000⟩]]

theorem quotedElements_read_back :
    (Value.list quotedElements).Denotable ∧
      (Value.list quotedElements).render =
        "['\"' ''' ']' \"[a]\x7b'(\" \"\" [] [[false] -2.5]]" ∧
      (∃ expr rest, parseExpression (.ofText (Value.list quotedElements).render) =
          (.ok expr, rest) ∧ rest.drain = ([], none) ∧
        ∃ enough, ∀ bound, enough ≤ bound → ∀ context : Context,
          evaluate bound expr context = (.done (.list quotedElements), context)) ∧
      (Value.list quotedElements).compare (.list quotedElements) = .ok .eq := by
  obtain ⟨hparse, hcompare⟩ := printed_lists_read_back
  have hnumber : (Value.number ⟨0xC004000000000000⟩).Denotable := by
    refine .number ?_ (by decide +kernel)
    show _ < _
    decide +kernel
  have hstring : ∀ text : String, (text.toList.all fun c => !Text.isBlank c && c != '"') = true →
      (Value.string text).Denotable := by
    intro text hall
    refine .string fun c hc => ?_
    simpa using List.all_eq_true.1 hall c hc
  have hlist : (Value.list quotedElements).Denotable := by
    refine .list fun element helement => ?_
    simp only [quotedElements, List.mem_cons, List.not_mem_nil, or_false] at helement
    rcases helement with rfl | rfl | rfl | rfl | rfl | rfl | rfl
    · exact .character (by decide)
    · exact .character (by decide)
    · exact .character (by decide)
    · exact hstring _ (by decide)
    · exact hstring _ (by decide)
    · exact .list nofun
    · have hinner : (Value.list [.boolean false]).Denotable :=
        .list (List.forall_mem_singleton.2 (.boolean false))
      exact .list (List.forall_mem_cons.2 ⟨hinner, List.forall_mem_singleton.2 hnumber⟩)
  exact ⟨hlist, by decide +kernel, hparse _ hlist, (hcompare _ _ hlist hlist).2 rfl⟩

end TinyScript
