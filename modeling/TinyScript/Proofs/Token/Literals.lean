import TinyScript.Proofs.Token.Standing
import TinyScript.Value.Literal

/-!
# What literals denote

The kind of a word tells its shape, and a literal denotes what its shape shows: the number that its
text is read as, a truth value, or what stands between the quotes (`Token.Denotes`). Words are
sorted and decoded by functions of their own, which have to agree on what a literal looks like: each
literal denotes one value, and it is decoded as that value (`ofLiteral?_eq_some_iff`).
-/

namespace TinyScript

/-! ## Texts of numerals -/

namespace Number.Numeral

/-- One or more digits. -/
def IsDigits (chars : List Char) : Prop :=
  chars ≠ [] ∧ chars.all Char.isDigit = true

/-- Nothing, or a point with digits behind it. -/
inductive IsFraction : List Char → Prop
  | absent : IsFraction []
  | point {digits : List Char} (hdigits : digits.all Char.isDigit = true) :
      IsFraction ('.' :: digits)

/-- Nothing, or a mark, perhaps a sign, and digits. -/
inductive IsExponent : List Char → Prop
  | absent : IsExponent []
  | marked {mark : Char} {sign digits : List Char} (hmark : mark = 'e' ∨ mark = 'E')
      (hsign : sign = [] ∨ sign = ['+'] ∨ sign = ['-']) (hdigits : IsDigits digits) :
      IsExponent (mark :: (sign ++ digits))

/-- The text fits `-?digits(.digits*)?([eE][+-]?digits)?`. -/
inductive IsWritten : List Char → Prop
  | parts {sign whole fraction exponent : List Char} (hsign : sign = [] ∨ sign = ['-'])
      (hwhole : IsDigits whole) (hfraction : IsFraction fraction)
      (hexponent : IsExponent exponent) :
      IsWritten (sign ++ (whole ++ (fraction ++ exponent)))

theorem IsDigits.exists_cons {chars : List Char} (h : IsDigits chars) :
    ∃ c rest, chars = c :: rest ∧ c.isDigit = true := by
  obtain ⟨hne, hall⟩ := h
  obtain ⟨c, rest, rfl⟩ := List.exists_cons_of_ne_nil hne
  exact ⟨c, rest, rfl, (Bool.and_eq_true _ _ ▸ hall).1⟩

theorem ne_of_isDigit {c d : Char} (hc : c.isDigit = true) (hd : d.isDigit = false) : c ≠ d := by
  rintro rfl
  exact Bool.false_ne_true (hd.symm.trans hc)

/-- Digits end where something else starts. -/
theorem takeWhile_digits {digits rest : List Char} (hdigits : digits.all Char.isDigit = true)
    (hrest : ∀ c ∈ rest.head?, c.isDigit = false) :
    (digits ++ rest).takeWhile Char.isDigit = digits ∧
      (digits ++ rest).dropWhile Char.isDigit = rest := by
  rw [List.all_eq_true] at hdigits
  rw [List.takeWhile_append_of_pos hdigits, List.dropWhile_append_of_pos hdigits]
  cases rest with
  | nil => simp
  | cons c rest => simp [hrest c (by simp)]

theorem isSome_readDigits?_iff {chars : List Char} :
    (readDigits? chars).isSome = true ↔ IsDigits chars := by
  unfold readDigits? IsDigits
  split
  · next h => exact iff_of_true rfl h
  · next h => exact iff_of_false (by simp) h

theorem isSome_readExponent?_iff {chars : List Char} :
    (readExponent? chars).isSome = true ↔ IsExponent chars := by
  constructor
  · intro h
    unfold readExponent? at h
    split at h
    · exact .absent
    · split at h
      · next hmark =>
          split at h
          · next digits =>
              rw [Option.isSome_map] at h
              exact .marked hmark (.inr (.inl rfl)) (isSome_readDigits?_iff.1 h)
          · next digits =>
              have hread : (readDigits? digits).isSome = true := by
                cases hdigits : readDigits? digits with
                | none => simp [hdigits] at h
                | some n => rfl
              exact .marked hmark (.inr (.inr rfl)) (isSome_readDigits?_iff.1 hread)
          · rw [Option.isSome_map] at h
            exact .marked hmark (.inl rfl) (isSome_readDigits?_iff.1 h)
      · cases h
  · rintro (_ | ⟨hmark, hsign, hdigits⟩)
    · rfl
    · obtain ⟨n, hread⟩ := Option.isSome_iff_exists.1 (isSome_readDigits?_iff.2 hdigits)
      rcases hsign with rfl | rfl | rfl
      · obtain ⟨c, rest, rfl, hc⟩ := hdigits.exists_cons
        have hplus : c ≠ '+' := ne_of_isDigit hc (by decide)
        have hminus : c ≠ '-' := ne_of_isDigit hc (by decide)
        simp [readExponent?, hmark, hplus, hminus, hread]
      · simp [readExponent?, hmark, hread]
      · simp [readExponent?, hmark, hread]

theorem IsExponent.head {chars : List Char} (h : IsExponent chars) :
    ∀ c ∈ chars.head?, c.isDigit = false ∧ c ≠ '.' := by
  cases h with
  | absent => simp
  | marked hmark =>
      intro c hc
      cases hc
      rcases hmark with rfl | rfl <;> decide

theorem isSome_readUnsigned?_iff {negative : Bool} {chars : List Char} :
    (readUnsigned? negative chars).isSome = true ↔
      ∃ whole fraction exponent, IsDigits whole ∧ IsFraction fraction ∧ IsExponent exponent ∧
        chars = whole ++ (fraction ++ exponent) := by
  constructor
  · intro h
    unfold readUnsigned? at h
    dsimp only at h
    have hchars := List.takeWhile_append_dropWhile (p := Char.isDigit) (l := chars)
    have hall : (chars.takeWhile Char.isDigit).all Char.isDigit = true := List.all_takeWhile
    split at h
    · cases h
    · next hne =>
        split at h
        · next rest hrest =>
            rw [Option.isSome_map, isSome_readExponent?_iff] at h
            refine ⟨_, '.' :: rest.takeWhile Char.isDigit, _, ⟨hne, hall⟩,
              .point List.all_takeWhile, h, ?_⟩
            rw [List.cons_append, List.takeWhile_append_dropWhile, ← hrest, hchars]
        · rw [Option.isSome_map, isSome_readExponent?_iff] at h
          exact ⟨_, [], _, ⟨hne, hall⟩, .absent, h, hchars.symm⟩
  · rintro ⟨whole, fraction, exponent, hwhole, hfraction, hexponent, rfl⟩
    have hread := isSome_readExponent?_iff.2 hexponent
    unfold readUnsigned?
    cases hfraction with
    | absent =>
        obtain ⟨htake, hdrop⟩ := takeWhile_digits hwhole.2 fun c hc => (hexponent.head c hc).1
        rw [List.nil_append, htake, hdrop, if_neg hwhole.1]
        split
        · exact absurd rfl (hexponent.head '.' rfl).2
        · rwa [Option.isSome_map]
    | @point digits hdigits =>
        have hpoint : ∀ c ∈ ('.' :: digits ++ exponent).head?, c.isDigit = false := by
          rintro c ⟨⟩
          decide
        obtain ⟨htake, hdrop⟩ := takeWhile_digits hwhole.2 hpoint
        obtain ⟨-, htail⟩ := takeWhile_digits hdigits fun c hc => (hexponent.head c hc).1
        rw [htake, hdrop, if_neg hwhole.1, List.cons_append]
        simpa only [Option.isSome_map, htail] using hread

/-- The texts that are read as numerals are those of the pattern. -/
theorem isSome_read?_iff {chars : List Char} :
    (read? chars).isSome = true ↔ IsWritten chars := by
  constructor
  · intro h
    unfold read? at h
    split at h <;> rw [isSome_readUnsigned?_iff] at h <;>
      obtain ⟨whole, fraction, exponent, hwhole, hfraction, hexponent, rfl⟩ := h
    · exact .parts (.inr rfl) hwhole hfraction hexponent
    · exact .parts (.inl rfl) hwhole hfraction hexponent
  · rintro ⟨hsign, hwhole, hfraction, hexponent⟩
    rcases hsign with rfl | rfl
    · obtain ⟨c, rest, rfl, hc⟩ := hwhole.exists_cons
      have hminus : c ≠ '-' := ne_of_isDigit hc (by decide)
      rw [List.nil_append, List.cons_append, read?]
      · rw [isSome_readUnsigned?_iff]
        exact ⟨_, _, _, hwhole, hfraction, hexponent, rfl⟩
      · rintro chars ⟨⟩
        exact hminus rfl
    · rw [List.singleton_append, read?, isSome_readUnsigned?_iff]
      exact ⟨_, _, _, hwhole, hfraction, hexponent, rfl⟩

end Number.Numeral

/-! ## Numbers in a text -/

namespace Number

theorem exists_digit_of_readUnsigned? {negative : Bool} {chars : List Char} {numeral : Numeral}
    (h : Numeral.readUnsigned? negative chars = some numeral) :
    ∃ c rest, chars = c :: rest ∧ c.isDigit = true := by
  obtain ⟨whole, fraction, exponent, hwhole, -, -, rfl⟩ :=
    Numeral.isSome_readUnsigned?_iff.1 (Option.isSome_iff_exists.2 ⟨numeral, h⟩)
  obtain ⟨c, rest, rfl, hc⟩ := hwhole.exists_cons
  exact ⟨c, rest ++ (fraction ++ exponent), rfl, hc⟩

theorem toLower_of_isDigit {c : Char} (h : c.isDigit = true) : c.toLower = c := by
  have hdigit : c.val ≤ '9'.val := of_decide_eq_true (Bool.and_eq_true _ _ ▸ h).2
  have hupper : ¬ (c.val ≥ 'A'.val ∧ c.val ≤ 'Z'.val) := by
    rintro ⟨hletter, -⟩
    exact absurd (UInt32.le_trans hletter hdigit) (by decide)
  exact dif_neg hupper

/-- No name of a number starts with a digit. -/
theorem namedMagnitude?_of_isDigit {c : Char} (h : c.isDigit = true) (rest : List Char) :
    namedMagnitude? (.ofList (c :: rest)) = none := by
  have hne : ∀ (name : String) (d : Char), name.toList.head? = some d → d.isDigit = false →
      String.ofList (c :: rest) ≠ name := by
    rintro _ d hhead hletter rfl
    rw [String.toList_ofList, List.head?_cons, Option.some.injEq] at hhead
    exact Numeral.ne_of_isDigit h hletter hhead
  unfold namedMagnitude?
  rw [if_neg, if_neg]
  · exact hne "nan" 'n' (by decide) (by decide)
  · rw [not_or]
    exact ⟨hne "inf" 'i' (by decide) (by decide), hne "infinity" 'i' (by decide) (by decide)⟩

theorem readUnsigned?_of_numeral {negative : Bool} {chars : List Char} {numeral : Numeral}
    (h : Numeral.readUnsigned? negative chars = some numeral) :
    readUnsigned? negative chars = some numeral.toNumber := by
  obtain ⟨c, rest, rfl, hc⟩ := exists_digit_of_readUnsigned? h
  have hpoint : c ≠ '.' := Numeral.ne_of_isDigit hc (by decide)
  have hnumeral : readNumeral? negative (c :: rest) = some numeral := by
    unfold readNumeral?
    split
    · next hchars => exact absurd (List.head_eq_of_cons_eq hchars) hpoint
    · exact h
  unfold readUnsigned?
  rw [List.map_cons, toLower_of_isDigit hc, namedMagnitude?_of_isDigit hc, hnumeral]
  rfl

/-- What is read as a numeral is read as its number. -/
theorem ofText?_of_read? {chars : List Char} {numeral : Numeral}
    (h : Numeral.read? chars = some numeral) :
    ofText? (.ofList chars) = some numeral.toNumber := by
  unfold ofText?
  rw [String.toList_ofList]
  unfold Numeral.read? at h
  split at h
  · exact readUnsigned?_of_numeral h
  · obtain ⟨c, rest, rfl, hc⟩ := exists_digit_of_readUnsigned? h
    have hplus : c ≠ '+' := Numeral.ne_of_isDigit hc (by decide)
    have hminus : c ≠ '-' := Numeral.ne_of_isDigit hc (by decide)
    split
    · next hchars => exact absurd (List.head_eq_of_cons_eq hchars) hplus
    · next hchars => exact absurd (List.head_eq_of_cons_eq hchars) hminus
    · exact readUnsigned?_of_numeral h

end Number

/-! ## Shapes of literals -/

namespace TokenKind

variable {spelling : String}

theorem isNumber_of_mem_fixedSpellings :
    ∀ spelling ∈ fixedSpellings, isNumber spelling.toList = false := by
  decide

/-- The number literals are the texts of numerals. -/
theorem classify_eq_numberLiteral_iff :
    classify spelling = .numberLiteral ↔ Number.Numeral.IsWritten spelling.toList := by
  rw [← Number.Numeral.isSome_read?_iff]
  change _ ↔ isNumber spelling.toList = true
  constructor
  · intro h
    unfold classify at h
    grind
  · intro hnumber
    have hfree : spelling ∉ fixedSpellings := by
      intro hfixed
      rw [isNumber_of_mem_fixedSpellings spelling hfixed] at hnumber
      cases hnumber
    simp only [fixedSpellings, List.mem_append] at hfree
    unfold classify
    grind

theorem mem_boolLiterals_of_classify (h : classify spelling = .boolLiteral) :
    spelling ∈ boolLiterals := by
  unfold classify at h
  grind

theorem exists_character_of_classify (h : classify spelling = .charLiteral) :
    ∃ c, spelling.toList = ['\'', c, '\''] := by
  have hcharacter : isCharacter spelling.toList = true := by
    unfold classify at h
    grind
  unfold isCharacter at hcharacter
  split at hcharacter
  · next c hchars => exact ⟨c, hchars⟩
  · cases hcharacter

theorem exists_text_of_classify (h : classify spelling = .stringLiteral) :
    ∃ text, spelling.toList = '"' :: (text ++ ['"']) := by
  have hstring : isString spelling.toList = true := by
    unfold classify at h
    grind
  unfold isString at hstring
  split at hstring
  · next rest hchars =>
      rw [decide_eq_true_eq] at hstring
      refine ⟨rest.takeWhile (· ≠ '"'), ?_⟩
      rw [hchars, ← hstring, List.takeWhile_append_dropWhile]
  · cases hstring

/-- Operators are told from other words by their spelling. -/
theorem mem_operators_of_classify (hcallable : (classify spelling).isCallable = true)
    (hname : classify spelling ≠ .identifier) :
    spelling ∈ boolOperators ++ mathOperators ++ sequenceOperators := by
  simp only [List.mem_append]
  unfold classify at hcallable hname
  grind [isCallable]

end TokenKind

/-! ## Values of literals -/

/-- The token is a literal for the value. -/
inductive Token.Denotes (token : Token) : Value → Prop
  | number {x : Number} (hkind : token.kind = .numberLiteral)
      (hread : Number.ofText? token.spelling = some x) : Denotes token (.number x)
  | boolean {b : Bool} (hkind : token.kind = .boolLiteral)
      (htext : token.spelling = toString b) : Denotes token (.boolean b)
  | character {c : Char} (hkind : token.kind = .charLiteral)
      (htext : token.spelling.toList = ['\'', c, '\'']) : Denotes token (.character c)
  | string {text : String} (hkind : token.kind = .stringLiteral)
      (htext : token.spelling = "\"" ++ text ++ "\"") : Denotes token (.string text)

namespace Value

theorem ofLiteral?_of_number {token : Token} (hkind : token.kind = .numberLiteral) :
    ∃ value, ofLiteral? token = some value ∧ token.Denotes value := by
  have hwritten := TokenKind.classify_eq_numberLiteral_iff.1 hkind
  obtain ⟨numeral, hread⟩ :=
    Option.isSome_iff_exists.1 (Number.Numeral.isSome_read?_iff.2 hwritten)
  have htext := Number.ofText?_of_read? hread
  rw [String.ofList_toList] at htext
  refine ⟨.number numeral.toNumber, ?_, .number hkind htext⟩
  rw [ofLiteral?, hkind]
  dsimp only
  rw [hread, Option.map_some]

theorem ofLiteral?_of_boolean {token : Token} (hkind : token.kind = .boolLiteral) :
    ∃ value, ofLiteral? token = some value ∧ token.Denotes value := by
  have hmem := TokenKind.mem_boolLiterals_of_classify hkind
  refine ⟨.boolean (token.spelling = "true"), by rw [ofLiteral?, hkind], .boolean hkind ?_⟩
  simp only [TokenKind.boolLiterals, List.mem_cons, List.not_mem_nil, or_false] at hmem
  rcases hmem with htrue | hfalse
  · rw [htrue]
    rfl
  · rw [hfalse]
    rfl

theorem ofLiteral?_of_character {token : Token} (hkind : token.kind = .charLiteral) :
    ∃ value, ofLiteral? token = some value ∧ token.Denotes value := by
  obtain ⟨c, hchars⟩ := TokenKind.exists_character_of_classify hkind
  refine ⟨.character c, ?_, .character hkind hchars⟩
  rw [ofLiteral?, hkind]
  dsimp only
  rw [hchars]
  rfl

theorem ofLiteral?_of_string {token : Token} (hkind : token.kind = .stringLiteral) :
    ∃ value, ofLiteral? token = some value ∧ token.Denotes value := by
  obtain ⟨text, hchars⟩ := TokenKind.exists_text_of_classify hkind
  have hbetween : betweenQuotes token.spelling = .ofList text := by
    rw [betweenQuotes, hchars, List.drop_succ_cons, List.drop_zero, List.dropLast_concat]
  refine ⟨.string (.ofList text), ?_, .string hkind ?_⟩
  · rw [ofLiteral?, hkind]
    dsimp only
    rw [hbetween]
  · rw [← String.toList_inj, hchars]
    simp

/-- Each literal is decoded, as a value that it denotes. -/
theorem exists_ofLiteral? {token : Token} (h : token.kind.isLiteral = true) :
    ∃ value, ofLiteral? token = some value ∧ token.Denotes value := by
  cases hkind : token.kind with
  | numberLiteral => exact ofLiteral?_of_number hkind
  | boolLiteral => exact ofLiteral?_of_boolean hkind
  | charLiteral => exact ofLiteral?_of_character hkind
  | stringLiteral => exact ofLiteral?_of_string hkind
  | _ =>
      rw [hkind] at h
      cases h

end Value

theorem Token.Denotes.isLiteral {token : Token} {value : Value} (h : token.Denotes value) :
    token.kind.isLiteral = true := by
  cases h <;> simp [*, TokenKind.isLiteral]

theorem toString_bool_injective {b c : Bool} (h : toString b = toString c) : b = c := by
  revert b c
  decide

/-- A literal denotes no two values. -/
theorem Token.Denotes.unique {token : Token} {value other : Value} (h : token.Denotes value)
    (hother : token.Denotes other) : other = value := by
  cases h with
  | number hkind hread => cases hother <;> simp_all
  | boolean hkind htext =>
      cases hother with
      | boolean _ hother => rw [toString_bool_injective (hother.symm.trans htext)]
      | _ => simp_all
  | character hkind htext => cases hother <;> simp_all
  | string hkind htext => cases hother <;> simp_all

/-- Literals are decoded as what they denote. -/
theorem ofLiteral?_eq_some_iff {token : Token} {value : Value} :
    Value.ofLiteral? token = some value ↔ token.Denotes value := by
  constructor
  · intro h
    have hliteral : token.kind.isLiteral = true := by
      unfold Value.ofLiteral? at h
      split at h <;> simp_all [TokenKind.isLiteral]
    obtain ⟨decoded, hdecoded, hdenotes⟩ := Value.exists_ofLiteral? hliteral
    rw [h] at hdecoded
    cases hdecoded
    exact hdenotes
  · intro h
    obtain ⟨decoded, hdecoded, hdenotes⟩ := Value.exists_ofLiteral? h.isLiteral
    rw [hdecoded, hdenotes.unique h]

end TinyScript
