import TinyScript.Proofs.Token.Patterns

/-!
# Kinds by the longest match

A scanner takes the longest match off the start of a text and says where it stops. To sort a
spelling it is enough to look at the first match: the spelling is of the kind of this match if the
match stops at the end, and of kind `unknown` otherwise (`Scanner.classify`). Every scanner that
keeps its promise sorts the spellings as the lexical grammar does (`kinds_decided_by_grammar`).
-/

namespace TinyScript

/-- A rule of the kind covers the text from its start to its end. -/
def TokenKind.Covers (kind : TokenKind) (text : List Char) : Prop :=
  String.ofList text ∈ kind.fixed ∨ text ∈ kind.pattern

/-- A match at the start of a text. -/
structure Match where
  kind : TokenKind
  text : List Char
deriving DecidableEq

/-- The bytes up to the end of the match. -/
def Match.stop (found : Match) : Nat :=
  (String.ofList found.text).utf8ByteSize

/-- Looks for a match at the start of a text. -/
abbrev Scanner := List Char → Option Match

namespace Scanner

/-- The kind of the match that makes up the whole spelling. -/
def classify (scan : Scanner) (spelling : String) : TokenKind :=
  match scan spelling.toList with
  | some found => if found.stop = spelling.utf8ByteSize then found.kind else .unknown
  | none => .unknown

/-- The scanner finds the longest match at the start, and takes no fixed spelling for a name. -/
structure TakesLongest (scan : Scanner) : Prop where
  isPrefix {text : List Char} {found : Match} (h : scan text = some found) : found.text <+: text
  covers {text : List Char} {found : Match} (h : scan text = some found) :
    found.kind.Covers found.text
  longest {text start : List Char} {found : Match} {kind : TokenKind} (h : scan text = some found)
    (hstart : start <+: text) (hcovers : kind.Covers start) : start.length ≤ found.text.length
  reserved {text : List Char} {found : Match} (h : scan text = some found)
    (hname : found.kind = .identifier) : String.ofList found.text ∉ TokenKind.fixedSpellings
  finds {text start : List Char} {kind : TokenKind} (hstart : start <+: text)
    (hcovers : kind.Covers start) : ∃ found, scan text = some found

end Scanner

namespace TokenKind

variable {kind : TokenKind} {spelling : String}

theorem covers_classify (h : classify spelling ≠ .unknown) :
    (classify spelling).Covers spelling.toList := by
  rw [Covers, String.ofList_toList]
  exact ((classify_eq_iff h).1 rfl).imp_right And.right

/-- Only the pattern of names covers fixed spellings too. -/
theorem not_mem_fixedSpellings (h : spelling.toList ∈ kind.pattern)
    (hname : kind ≠ .identifier) : spelling ∉ fixedSpellings := by
  intro hfixed
  obtain ⟨hdouble, hsingle⟩ := head?_of_mem_fixedSpellings spelling hfixed
  cases kind with
  | numberLiteral =>
      have hnumber := isNumber_of_mem_fixedSpellings spelling hfixed
      rw [Pattern.mem_number_iff.1 h] at hnumber
      cases hnumber
  | identifier => exact hname rfl
  | stringLiteral =>
      obtain ⟨_, rest, rfl, -, hchars⟩ := Pattern.mem_oneOf_mul.1 h
      rw [hchars] at hdouble
      exact hdouble rfl
  | charLiteral =>
      obtain ⟨_, rest, rfl, -, hchars⟩ := Pattern.mem_oneOf_mul.1 h
      rw [hchars] at hsingle
      exact hsingle rfl
  | _ => exact Language.notMem_zero _ h

/-- A rule that covers the whole spelling gives its kind, unless it is the rule of names and the
spelling is fixed. -/
theorem classify_of_covers (h : kind.Covers spelling.toList)
    (hreserved : kind = .identifier → spelling ∉ fixedSpellings) : classify spelling = kind := by
  rw [Covers, String.ofList_toList] at h
  rcases h with hfixed | hpattern
  · exact classify_of_mem_fixed hfixed
  · have hkind : kind ≠ .unknown := by
      rintro rfl
      exact Language.notMem_zero _ hpattern
    have hfree : spelling ∉ fixedSpellings := by
      by_cases hname : kind = .identifier
      · exact hreserved hname
      · exact not_mem_fixedSpellings hpattern hname
    exact (classify_eq_iff hkind).2 (.inr ⟨hfree, hpattern⟩)

theorem Covers.classify_ne_unknown {text : List Char} (h : kind.Covers text) :
    classify (.ofList text) ≠ .unknown := by
  rcases h with hfixed | hpattern
  · rw [classify_of_mem_fixed hfixed]
    rintro rfl
    cases hfixed
  · have hspelling : (String.ofList text).toList ∈ kind.pattern := by
      rwa [String.toList_ofList]
    exact TokenKind.classify_ne_unknown hspelling

end TokenKind

/-! ## Any scanner -/

namespace Scanner

variable {scan : Scanner} {spelling : String}

/-- A match stops at the end where it is the whole spelling. -/
theorem stop_eq_iff {found : Match} (h : found.text <+: spelling.toList) :
    found.stop = spelling.utf8ByteSize ↔ found.text = spelling.toList := by
  obtain ⟨rest, hrest⟩ := h
  have hspelling : spelling = String.ofList found.text ++ String.ofList rest := by
    rw [← String.ofList_append, hrest, String.ofList_toList]
  have hsize : spelling.utf8ByteSize = found.stop + (String.ofList rest).utf8ByteSize := by
    rw [hspelling, String.utf8ByteSize_append, Match.stop]
  calc found.stop = spelling.utf8ByteSize
      ↔ (String.ofList rest).utf8ByteSize = 0 := by omega
    _ ↔ rest = [] := by simp
    _ ↔ found.text = spelling.toList := by rw [← hrest]; simp

theorem TakesLongest.classify_eq (h : scan.TakesLongest) (spelling : String) :
    scan.classify spelling = TokenKind.classify spelling := by
  unfold Scanner.classify
  split
  · next found hfound =>
      have hstart := h.isPrefix hfound
      split
      · next hstop =>
          have hwhole := (stop_eq_iff hstart).1 hstop
          have hcovers := h.covers hfound
          have hreserved := h.reserved hfound
          rw [hwhole] at hcovers hreserved
          rw [String.ofList_toList] at hreserved
          exact (TokenKind.classify_of_covers hcovers hreserved).symm
      · next hstop =>
          -- A rule that covered the whole spelling would match more than was found.
          by_contra hne
          have hcovers := TokenKind.covers_classify (Ne.symm hne)
          have hlength := h.longest hfound (List.prefix_refl _) hcovers
          exact hstop ((stop_eq_iff hstart).2 (hstart.eq_of_length_le hlength))
  · next hnone =>
      by_contra hne
      have hcovers := TokenKind.covers_classify (Ne.symm hne)
      obtain ⟨found, hfound⟩ := h.finds (List.prefix_refl _) hcovers
      rw [hnone] at hfound
      cases hfound

/-! ## A scanner that tries every start -/

/-- The longest start of at most so many characters that has a kind. -/
def longestWithin (text : List Char) : Nat → Option Match
  | 0 => none
  | n + 1 =>
    match TokenKind.classify (.ofList (text.take (n + 1))) with
    | .unknown => longestWithin text n
    | kind => some ⟨kind, text.take (n + 1)⟩

def longest : Scanner := fun text => longestWithin text text.length

theorem longestWithin_succ (text : List Char) (n : Nat) :
    (TokenKind.classify (.ofList (text.take (n + 1))) = .unknown ∧
        longestWithin text (n + 1) = longestWithin text n) ∨
      (TokenKind.classify (.ofList (text.take (n + 1))) ≠ .unknown ∧
        longestWithin text (n + 1) =
          some ⟨.classify (.ofList (text.take (n + 1))), text.take (n + 1)⟩) := by
  rw [longestWithin]
  split
  · next h => exact .inl ⟨h, rfl⟩
  · next h => exact .inr ⟨h, rfl⟩

/-- What is found is a start of the text and has its kind. -/
theorem of_longestWithin {text : List Char} {n : Nat} {found : Match}
    (h : longestWithin text n = some found) :
    found.text <+: text ∧ found.kind ≠ .unknown ∧
      TokenKind.classify (.ofList found.text) = found.kind := by
  induction n with
  | zero => cases h
  | succ n ih =>
      rcases longestWithin_succ text n with ⟨-, heq⟩ | ⟨hkind, heq⟩
      · exact ih (heq ▸ h)
      · rw [heq] at h
        cases h
        exact ⟨List.take_prefix _ _, hkind, rfl⟩

/-- A start with a kind is found, or a longer one. -/
theorem exists_longestWithin {text : List Char} {m n : Nat} (hm : m ≤ n)
    (h : TokenKind.classify (.ofList (text.take m)) ≠ .unknown) :
    ∃ found, longestWithin text n = some found ∧ (text.take m).length ≤ found.text.length := by
  induction n with
  | zero =>
      obtain rfl := Nat.le_zero.1 hm
      rw [List.take_zero] at h
      exact absurd (by decide) h
  | succ n ih =>
      rcases longestWithin_succ text n with ⟨hunknown, heq⟩ | ⟨-, heq⟩
      · rcases Nat.le_succ_iff.1 hm with hle | rfl
        · rw [heq]
          exact ih hle
        · exact absurd hunknown h
      · refine ⟨_, heq, ?_⟩
        simp only [List.length_take]
        omega

theorem exists_longest {text start : List Char} {kind : TokenKind} (hstart : start <+: text)
    (h : kind.Covers start) :
    ∃ found, longest text = some found ∧ start.length ≤ found.text.length := by
  have htake := List.prefix_iff_eq_take.1 hstart
  rw [htake] at h ⊢
  exact exists_longestWithin hstart.length_le h.classify_ne_unknown

theorem longest_takesLongest : longest.TakesLongest where
  isPrefix h := (of_longestWithin h).1
  covers {text found} h := by
    obtain ⟨-, hkind, hclassify⟩ := of_longestWithin h
    rw [← hclassify] at hkind ⊢
    simpa using TokenKind.covers_classify hkind
  longest {text start found kind} h hstart hcovers := by
    obtain ⟨other, hother, hlength⟩ := exists_longest hstart hcovers
    rw [h] at hother
    cases hother
    exact hlength
  reserved {text found} h hname := by
    obtain ⟨-, hkind, hclassify⟩ := of_longestWithin h
    rcases (TokenKind.classify_eq_iff hkind).1 hclassify with hfixed | ⟨hfree, -⟩
    · rw [hname] at hfixed
      cases hfixed
    · exact hfree
  finds hstart hcovers := by
    obtain ⟨found, hfound, -⟩ := exists_longest hstart hcovers
    exact ⟨found, hfound⟩

end Scanner

/-- A scanner that takes the longest match sorts the spellings as the lexical grammar does: by the
fixed spellings of six kinds, then by the patterns of four kinds, and the rest have no kind. -/
theorem kinds_decided_by_grammar {scan : Scanner} (h : scan.TakesLongest) (spelling : String) :
    scan.classify spelling = TokenKind.classify spelling ∧
      (∀ kind ∈ [.delimiter, .keyword, .boolOperator, .mathOperator, .sequenceOperator,
          .boolLiteral], TokenKind.classify spelling = kind ↔ spelling ∈ kind.fixed) ∧
      (∀ kind ∈ [.numberLiteral, .identifier, .stringLiteral, .charLiteral],
        TokenKind.classify spelling = kind ↔
          spelling ∉ TokenKind.fixedSpellings ∧ spelling.toList ∈ kind.pattern) ∧
      (TokenKind.classify spelling = .unknown ↔
        spelling ∉ TokenKind.fixedSpellings ∧
          ∀ kind : TokenKind, spelling.toList ∉ kind.pattern) := by
  refine ⟨h.classify_eq spelling, fun kind hkind => ?_, fun kind hkind => ?_,
    TokenKind.classify_eq_unknown_iff⟩
  · have hpattern : kind ≠ .unknown ∧ kind.pattern = 0 := by
      simp only [List.mem_cons, List.not_mem_nil, or_false] at hkind
      rcases hkind with rfl | rfl | rfl | rfl | rfl | rfl <;> exact ⟨by decide, rfl⟩
    rw [TokenKind.classify_eq_iff hpattern.1, hpattern.2]
    simp [Language.notMem_zero]
  · have hfixed : kind ≠ .unknown ∧ kind.fixed = [] := by
      simp only [List.mem_cons, List.not_mem_nil, or_false] at hkind
      rcases hkind with rfl | rfl | rfl | rfl <;> exact ⟨by decide, rfl⟩
    rw [TokenKind.classify_eq_iff hfixed.1, hfixed.2]
    simp

/-- A number with half an exponent, and a name that starts with a keyword. -/
theorem halfExponent_has_no_kind :
    Scanner.longest.TakesLongest ∧
      Scanner.longest "12.e+".toList = some ⟨.numberLiteral, "12.".toList⟩ ∧
      Scanner.longest.classify "12.e+" = .unknown ∧ "12.e+".toList ∉ Pattern.number ∧
      Scanner.longest.classify "printer" = .identifier ∧
      "printer".toList ∈ Pattern.identifier := by
  obtain ⟨hpartial, -, -, hunknown⟩ :=
    kinds_decided_by_grammar Scanner.longest_takesLongest "12.e+"
  obtain ⟨hname, -, hpatterns, -⟩ :=
    kinds_decided_by_grammar Scanner.longest_takesLongest "printer"
  have hidentifier : TokenKind.classify "printer" = .identifier := by decide +kernel
  have hnone : TokenKind.classify "12.e+" = .unknown := by decide +kernel
  refine ⟨Scanner.longest_takesLongest, by decide +kernel, hpartial.trans hnone,
    (hunknown.1 hnone).2 .numberLiteral, hname.trans hidentifier, ?_⟩
  exact ((hpatterns .identifier (by simp)).1 hidentifier).2

end TinyScript
