import Mathlib.Computability.Language
import TinyScript.Proofs.Token.Literals

/-!
# The lexical grammar

The patterns of the lexical grammar are languages over characters, written with union,
concatenation and closure (`Pattern.number` and its companions). Each function that recognizes
words accepts its pattern. No text fits two patterns, since the first character tells which pattern
it may fit, and so the kind of a spelling does not depend on the order in which the functions are
tried (`TokenKind.classify_eq_iff`).
-/

namespace TinyScript

open scoped Computability

/-! ## Patterns -/

namespace Pattern

/-- The texts of one character of a class. -/
def oneOf (p : Char → Prop) : Language Char :=
  {text | ∃ c, p c ∧ text = [c]}

/-- The pattern `l?`. -/
def optional (l : Language Char) : Language Char :=
  1 + l

/-- The pattern `l+`. -/
def repeated (l : Language Char) : Language Char :=
  l * l∗

/-- The pattern `[0-9]`. -/
def digit : Language Char :=
  oneOf fun c => '0' ≤ c ∧ c ≤ '9'

/-- The pattern `[a-zA-Z]`. -/
def letter : Language Char :=
  oneOf fun c => ('a' ≤ c ∧ c ≤ 'z') ∨ ('A' ≤ c ∧ c ≤ 'Z')

/-- The pattern `(\.[0-9]*)?`. -/
def fraction : Language Char :=
  optional (oneOf (· = '.') * digit∗)

/-- The pattern `([eE][+-]?[0-9]+)?`. -/
def exponent : Language Char :=
  optional (oneOf (fun c => c = 'e' ∨ c = 'E') *
    (optional (oneOf fun c => c = '+' ∨ c = '-') * repeated digit))

/-- The pattern `-?[0-9]+(\.[0-9]*)?([eE][+-]?[0-9]+)?`. -/
def number : Language Char :=
  optional (oneOf (· = '-')) * (repeated digit * (fraction * exponent))

/-- The pattern `[a-zA-Z][a-zA-Z0-9]*`. -/
def identifier : Language Char :=
  letter * (letter + digit)∗

/-- The pattern `"[^"]*"`. -/
def string : Language Char :=
  oneOf (· = '"') * ((oneOf (· ≠ '"'))∗ * oneOf (· = '"'))

/-- The pattern `'[^\n]'`. -/
def character : Language Char :=
  oneOf (· = '\'') * (oneOf (· ≠ '\n') * oneOf (· = '\''))

/-! ## Texts of a pattern -/

variable {l : Language Char} {text : List Char} {p : Char → Prop}

theorem mem_oneOf : text ∈ oneOf p ↔ ∃ c, p c ∧ text = [c] := Iff.rfl

theorem mem_optional : text ∈ optional l ↔ text = [] ∨ text ∈ l := by
  rw [optional, Language.mem_add, Language.mem_one]

theorem oneOf_add (q : Char → Prop) : oneOf p + oneOf q = oneOf fun c => p c ∨ q c := by
  ext text
  simp only [Language.mem_add, mem_oneOf]
  grind

theorem mem_closure_oneOf : text ∈ (oneOf p)∗ ↔ ∀ c ∈ text, p c := by
  rw [Language.mem_kstar]
  constructor
  · rintro ⟨pieces, rfl, hpieces⟩ c hc
    obtain ⟨piece, hpiece, hmem⟩ := List.mem_flatten.1 hc
    obtain ⟨d, hd, rfl⟩ := hpieces piece hpiece
    rwa [List.mem_singleton.1 hmem]
  · intro h
    refine ⟨text.map fun c => [c], by simp [← List.flatMap_def], ?_⟩
    simpa [mem_oneOf] using h

theorem mem_oneOf_mul :
    text ∈ oneOf p * l ↔ ∃ c rest, p c ∧ rest ∈ l ∧ text = c :: rest := by
  rw [Language.mem_mul]
  constructor
  · rintro ⟨_, ⟨c, hc, rfl⟩, rest, hrest, rfl⟩
    exact ⟨c, rest, hc, hrest, rfl⟩
  · rintro ⟨c, rest, hc, hrest, rfl⟩
    exact ⟨[c], ⟨c, hc, rfl⟩, rest, hrest, rfl⟩

theorem mem_repeated_oneOf : text ∈ repeated (oneOf p) ↔ text ≠ [] ∧ ∀ c ∈ text, p c := by
  rw [repeated, mem_oneOf_mul]
  constructor
  · rintro ⟨c, rest, hc, hrest, rfl⟩
    exact ⟨List.cons_ne_nil c rest, List.forall_mem_cons.2 ⟨hc, mem_closure_oneOf.1 hrest⟩⟩
  · rintro ⟨hne, hall⟩
    obtain ⟨c, rest, rfl⟩ := List.exists_cons_of_ne_nil hne
    obtain ⟨hc, hrest⟩ := List.forall_mem_cons.1 hall
    exact ⟨c, rest, hc, mem_closure_oneOf.2 hrest, rfl⟩

/-! ## Classes of characters -/

theorem isDigit_iff {c : Char} : c.isDigit = true ↔ '0' ≤ c ∧ c ≤ '9' := by
  simp [Char.isDigit, Char.le_def]

theorem isAlpha_iff {c : Char} :
    c.isAlpha = true ↔ ('a' ≤ c ∧ c ≤ 'z') ∨ ('A' ≤ c ∧ c ≤ 'Z') := by
  have hupper : c.isUpper = true ↔ 'A' ≤ c ∧ c ≤ 'Z' := decide_eq_true_iff
  have hlower : c.isLower = true ↔ 'a' ≤ c ∧ c ≤ 'z' :=
    Bool.and_eq_true_iff.trans (and_congr decide_eq_true_iff decide_eq_true_iff)
  calc c.isAlpha = true
      ↔ c.isUpper = true ∨ c.isLower = true := Bool.or_eq_true_iff
    _ ↔ ('a' ≤ c ∧ c ≤ 'z') ∨ ('A' ≤ c ∧ c ≤ 'Z') := by rw [hupper, hlower, or_comm]

theorem digit_eq : digit = oneOf fun c => c.isDigit = true := by
  simp only [digit, isDigit_iff]

theorem letter_eq : letter = oneOf fun c => c.isAlpha = true := by
  simp only [letter, isAlpha_iff]

theorem letter_add_digit : letter + digit = oneOf fun c => c.isAlphanum = true := by
  simp only [letter_eq, digit_eq, oneOf_add, Char.isAlphanum, Bool.or_eq_true]

/-! ## Numbers -/

section

open Number.Numeral

theorem mem_repeated_digit : text ∈ repeated digit ↔ IsDigits text := by
  rw [digit_eq, mem_repeated_oneOf, IsDigits, List.all_eq_true]

theorem mem_fraction : text ∈ fraction ↔ IsFraction text := by
  rw [fraction, mem_optional, mem_oneOf_mul]
  simp only [digit_eq, mem_closure_oneOf, ← List.all_eq_true]
  constructor
  · rintro (rfl | ⟨_, rest, rfl, hrest, rfl⟩)
    · exact .absent
    · exact .point hrest
  · rintro (_ | hdigits)
    · exact .inl rfl
    · exact .inr ⟨'.', _, rfl, hdigits, rfl⟩

theorem mem_exponent : text ∈ exponent ↔ IsExponent text := by
  have hsigns : ∀ sign : List Char, sign ∈ optional (oneOf fun c => c = '+' ∨ c = '-') ↔
      sign = [] ∨ sign = ['+'] ∨ sign = ['-'] := by
    intro sign
    simp [mem_optional, mem_oneOf, or_and_right, exists_or]
  rw [exponent, mem_optional, mem_oneOf_mul]
  constructor
  · rintro (rfl | ⟨mark, _, hmark, ⟨sign, hsign, digits, hdigits, rfl⟩, rfl⟩)
    · exact .absent
    · exact .marked hmark ((hsigns sign).1 hsign) (mem_repeated_digit.1 hdigits)
  · rintro (_ | ⟨hmark, hsign, hdigits⟩)
    · exact .inl rfl
    · exact .inr ⟨_, _, hmark, Language.append_mem_mul ((hsigns _).2 hsign)
        (mem_repeated_digit.2 hdigits), rfl⟩

theorem mem_number : text ∈ number ↔ IsWritten text := by
  have hsigns : ∀ sign : List Char, sign ∈ optional (oneOf (· = '-')) ↔
      sign = [] ∨ sign = ['-'] := by
    intro sign
    simp [mem_optional, mem_oneOf]
  constructor
  · rintro ⟨sign, hsign, _, ⟨whole, hwhole, _, ⟨point, hpoint, power, hpower, rfl⟩, rfl⟩, rfl⟩
    exact .parts ((hsigns sign).1 hsign) (mem_repeated_digit.1 hwhole) (mem_fraction.1 hpoint)
      (mem_exponent.1 hpower)
  · rintro ⟨hsign, hwhole, hfraction, hexponent⟩
    exact Language.append_mem_mul ((hsigns _).2 hsign)
      (Language.append_mem_mul (mem_repeated_digit.2 hwhole)
        (Language.append_mem_mul (mem_fraction.2 hfraction) (mem_exponent.2 hexponent)))

end

/-! ## Words and quoted texts -/

open TokenKind

theorem mem_number_iff : text ∈ number ↔ isNumber text = true :=
  mem_number.trans Number.Numeral.isSome_read?_iff.symm

theorem mem_identifier_iff : text ∈ identifier ↔ isIdentifier text = true := by
  rw [identifier, letter_add_digit, letter_eq, mem_oneOf_mul]
  simp only [mem_closure_oneOf]
  cases text with
  | nil => simp [isIdentifier]
  | cons c rest => simp [isIdentifier]

theorem mem_string_iff : text ∈ string ↔ isString text = true := by
  rw [string, mem_oneOf_mul]
  constructor
  · rintro ⟨_, _, rfl, ⟨body, hbody, _, ⟨_, rfl, rfl⟩, rfl⟩, rfl⟩
    have hdrop : (body ++ ['"']).dropWhile (· ≠ '"') = ['"'].dropWhile (· ≠ '"') := by
      apply List.dropWhile_append_of_pos
      simpa using mem_closure_oneOf.1 hbody
    rw [isString, hdrop]
    decide
  · intro h
    unfold isString at h
    split at h
    · next rest =>
        refine ⟨_, rest, rfl, ?_, rfl⟩
        have hrest := rest.takeWhile_append_dropWhile (p := (· ≠ '"'))
        rw [of_decide_eq_true h] at hrest
        refine ⟨_, mem_closure_oneOf.2 fun c hc => ?_, ['"'], ⟨_, rfl, rfl⟩, hrest⟩
        simpa using List.mem_takeWhile_imp hc
    · cases h

theorem mem_character_iff : text ∈ character ↔ isCharacter text = true := by
  rw [character, mem_oneOf_mul]
  simp only [mem_oneOf_mul, mem_oneOf]
  constructor
  · rintro ⟨_, _, rfl, ⟨c, _, hc, ⟨_, rfl, rfl⟩, rfl⟩, rfl⟩
    simpa [isCharacter] using hc
  · intro h
    unfold isCharacter at h
    split at h
    · next c => exact ⟨_, _, rfl, ⟨c, _, of_decide_eq_true h, ⟨_, rfl, rfl⟩, rfl⟩, rfl⟩
    · cases h

end Pattern

/-! ## Kinds -/

namespace TokenKind

/-- The fixed spellings of a kind. -/
def fixed : TokenKind → List String
  | delimiter => delimiters
  | keyword => keywords
  | boolOperator => boolOperators
  | mathOperator => mathOperators
  | sequenceOperator => sequenceOperators
  | boolLiteral => boolLiterals
  | _ => []

/-- The pattern of a kind, which no text fits if the kind has fixed spellings only. -/
def pattern : TokenKind → Language Char
  | numberLiteral => Pattern.number
  | identifier => Pattern.identifier
  | stringLiteral => Pattern.string
  | charLiteral => Pattern.character
  | _ => 0

variable {kind other : TokenKind} {spelling : String} {text : List Char}

theorem mem_fixedSpellings_iff : spelling ∈ fixedSpellings ↔ ∃ kind, spelling ∈ fixed kind := by
  simp only [fixedSpellings, List.mem_append]
  constructor
  · rintro (((((h | h) | h) | h) | h) | h)
    exacts [⟨delimiter, h⟩, ⟨keyword, h⟩, ⟨boolOperator, h⟩, ⟨mathOperator, h⟩,
      ⟨sequenceOperator, h⟩, ⟨boolLiteral, h⟩]
  · rintro ⟨kind, h⟩
    cases kind <;> simp_all [fixed]

theorem classify_of_mem_fixed (h : spelling ∈ fixed kind) : classify spelling = kind := by
  have hall : ∀ spelling ∈ fixed kind, classify spelling = kind := by
    cases kind <;> decide
  exact hall spelling h

/-- The only kind whose pattern may cover a text with this first character. -/
def kindOfStart (c : Char) : TokenKind :=
  if c = '"' then .stringLiteral
  else if c = '\'' then .charLiteral
  else if c.isAlpha then .identifier
  else .numberLiteral

theorem kindOfStart_of_isDigit {c : Char} (h : c.isDigit = true) :
    kindOfStart c = .numberLiteral := by
  have hletter : ¬ c.isAlpha = true := by
    have hnine := (Pattern.isDigit_iff.1 h).2
    rw [Pattern.isAlpha_iff]
    rintro (⟨hletter, -⟩ | ⟨hletter, -⟩)
    · exact absurd (Char.le_trans hletter hnine) (by decide)
    · exact absurd (Char.le_trans hletter hnine) (by decide)
  rw [kindOfStart, if_neg (Number.Numeral.ne_of_isDigit h (by decide)),
    if_neg (Number.Numeral.ne_of_isDigit h (by decide)), if_neg hletter]

theorem kindOfStart_of_isAlpha {c : Char} (h : c.isAlpha = true) :
    kindOfStart c = .identifier := by
  have hquote : c ≠ '"' := by
    rintro rfl
    cases h
  have hsingle : c ≠ '\'' := by
    rintro rfl
    cases h
  rw [kindOfStart, if_neg hquote, if_neg hsingle, if_pos h]

theorem kindOfStart_of_mem_pattern (h : text ∈ kind.pattern) :
    ∃ c rest, text = c :: rest ∧ kindOfStart c = kind := by
  cases kind with
  | numberLiteral =>
      obtain ⟨hsign, hwhole, -, -⟩ := Pattern.mem_number.1 h
      rcases hsign with rfl | rfl
      · obtain ⟨c, rest, rfl, hc⟩ := hwhole.exists_cons
        exact ⟨c, _, rfl, kindOfStart_of_isDigit hc⟩
      · exact ⟨'-', _, rfl, by decide⟩
  | identifier =>
      obtain ⟨c, rest, hc, -, rfl⟩ := Pattern.mem_oneOf_mul.1 h
      exact ⟨c, rest, rfl, kindOfStart_of_isAlpha (Pattern.isAlpha_iff.2 hc)⟩
  | stringLiteral =>
      obtain ⟨_, rest, rfl, -, rfl⟩ := Pattern.mem_oneOf_mul.1 h
      exact ⟨_, rest, rfl, by decide⟩
  | charLiteral =>
      obtain ⟨_, rest, rfl, -, rfl⟩ := Pattern.mem_oneOf_mul.1 h
      exact ⟨_, rest, rfl, by decide⟩
  | _ => exact absurd h (Language.notMem_zero text)

/-- No text fits the patterns of two kinds. -/
theorem pattern_unique (h : text ∈ kind.pattern) (hother : text ∈ other.pattern) :
    other = kind := by
  obtain ⟨c, rest, rfl, hkind⟩ := kindOfStart_of_mem_pattern h
  obtain ⟨d, _, heq, hd⟩ := kindOfStart_of_mem_pattern hother
  rw [← hkind, ← hd, List.head_eq_of_cons_eq heq]

theorem mem_pattern_classify (hfixed : spelling ∉ fixedSpellings)
    (h : classify spelling ≠ .unknown) : spelling.toList ∈ (classify spelling).pattern := by
  simp only [fixedSpellings, List.mem_append, not_or] at hfixed
  obtain ⟨⟨⟨⟨⟨hdelimiter, hkeyword⟩, hbool⟩, hmath⟩, hsequence⟩, hliteral⟩ := hfixed
  unfold classify at h ⊢
  simp only [hdelimiter, hkeyword, hbool, hmath, hsequence, hliteral, if_false] at h ⊢
  split
  · next hnumber => exact Pattern.mem_number_iff.2 hnumber
  · split
    · next hidentifier => exact Pattern.mem_identifier_iff.2 hidentifier
    · split
      · next hstring => exact Pattern.mem_string_iff.2 hstring
      · split
        · next hcharacter => exact Pattern.mem_character_iff.2 hcharacter
        · next hnone => simp_all

theorem classify_ne_unknown (h : spelling.toList ∈ kind.pattern) :
    classify spelling ≠ .unknown := by
  unfold classify
  cases kind with
  | numberLiteral => grind [Pattern.mem_number_iff.1 h]
  | identifier => grind [Pattern.mem_identifier_iff.1 h]
  | stringLiteral => grind [Pattern.mem_string_iff.1 h]
  | charLiteral => grind [Pattern.mem_character_iff.1 h]
  | _ => exact absurd h (Language.notMem_zero _)

/-- A kind other than `unknown` has the spellings that are fixed for it, and those that fit its
pattern and are fixed for no kind. -/
theorem classify_eq_iff (hkind : kind ≠ .unknown) :
    classify spelling = kind ↔
      spelling ∈ fixed kind ∨ (spelling ∉ fixedSpellings ∧ spelling.toList ∈ kind.pattern) := by
  constructor
  · rintro rfl
    by_cases hfixed : spelling ∈ fixedSpellings
    · obtain ⟨kind, hmem⟩ := mem_fixedSpellings_iff.1 hfixed
      rw [classify_of_mem_fixed hmem]
      exact .inl hmem
    · exact .inr ⟨hfixed, mem_pattern_classify hfixed hkind⟩
  · rintro (hmem | ⟨hfixed, hpattern⟩)
    · exact classify_of_mem_fixed hmem
    · exact pattern_unique hpattern (mem_pattern_classify hfixed (classify_ne_unknown hpattern))

theorem classify_eq_unknown_iff :
    classify spelling = .unknown ↔
      spelling ∉ fixedSpellings ∧ ∀ kind, spelling.toList ∉ pattern kind := by
  constructor
  · intro h
    refine ⟨fun hfixed => ?_, fun kind hpattern => classify_ne_unknown hpattern h⟩
    obtain ⟨kind, hmem⟩ := mem_fixedSpellings_iff.1 hfixed
    rw [classify_of_mem_fixed hmem] at h
    rw [h] at hmem
    cases hmem
  · rintro ⟨hfixed, hnone⟩
    by_contra h
    exact hnone _ (mem_pattern_classify hfixed h)

end TokenKind

end TinyScript
