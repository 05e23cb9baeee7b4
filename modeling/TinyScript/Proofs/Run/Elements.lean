import Mathlib.Tactic.NormNum
import TinyScript.Proofs.Number.Exact
import TinyScript.Proofs.Run.Iteration

/-!
# Sequences and their elements

Lists and strings are sequences: the elements of a string are its characters. What `len` and `get`
say of two joined sequences is what they say of the parts, and `get` finds an element at every index
below the number nearest to the length and at no other (`joined_sequences_indexed`). Where no number
is the length, this is another one (`joined_lengths_not_added`).
-/

namespace TinyScript

/-! ## Elements -/

/-- The elements of a list, or the characters of a string. -/
def Value.elements? : Value → Option (List Value)
  | list elements => some elements
  | string text => some (text.toList.map character)
  | number _ | boolean _ | character _ => none

theorem Builtin.expectSequence_of_elements {value : Value} {elements : List Value}
    (h : value.elements? = some elements) (operator : String) :
    expectSequence operator value = pure elements := by
  cases value with
  | list _ | string _ =>
      obtain rfl := Option.some.inj h
      rfl
  | _ => cases h

/-- What taking the element at an index comes to. The length counts as the number nearest to it. -/
inductive Indexing (elements : List Value) (x : Number) : Outcome Value → Prop
  /-- The index is not a number or lies between two integers. -/
  | nonInteger (h : x.isNaN = true ∨ x.IsFractional) :
      Indexing elements x (.failed (.running (.nonIntegerIndex x)))
  | infinite (h : x.IsInfinite) :
      Indexing elements x (.failed (.running (.indexOutOfBounds x elements.length)))
  | outside {i : Int} (hfinite : x.IsFinite) (hvalue : x.value = i)
      (houtside : i < 0 ∨ (Number.ofNat elements.length).value ≤ i) :
      Indexing elements x (.failed (.running (.indexOutOfBounds x elements.length)))
  | found {i : Nat} (hfinite : x.IsFinite) (hvalue : x.value = i)
      (hbelow : i < (Number.ofNat elements.length).value) (hinside : i < elements.length) :
      Indexing elements x (.done elements[i])

namespace Indexing

variable {elements : List Value} {x : Number}

/-- An index that counts something is compared with zero and with the number for the length. -/
theorem placeOf_eq (length : Nat) (hcount : x.count ≠ .none) :
    Builtin.placeOf length x =
      if x.value < 0 ∨ (Number.ofNat length).value ≤ x.value then
        .error (.indexOutOfBounds x length)
      else .ok x.toNat := by
  have hnan := Number.isNaN_of_count hcount
  have hzero : (Number.ofMagnitude false 0).value = 0 :=
    Number.value_of_magnitude_eq_zero (by decide)
  have hless := Number.less_iff hnan (y := .ofMagnitude false 0) (by decide)
  have hmost := Number.atMost_iff (Number.isNaN_ofNat length) hnan
  rw [hzero] at hless
  simp only [Builtin.placeOf, if_neg hcount, Bool.or_eq_true, hless, hmost]

theorem placeOf_found {i : Nat} {length : Nat} (hfinite : x.IsFinite) (hvalue : x.value = i)
    (hbelow : i < (Number.ofNat length).value) : Builtin.placeOf length x = .ok i := by
  have hcount : x.count = .integer i :=
    Number.count_eq_integer_iff.2 ⟨hfinite, by exact_mod_cast hvalue⟩
  have hinside : ¬ (x.value < 0 ∨ (Number.ofNat length).value ≤ x.value) := by
    rw [hvalue]
    exact not_or.2 ⟨(Nat.cast_nonneg i).not_gt, hbelow.not_ge⟩
  rw [placeOf_eq length (by simp [hcount]), if_neg hinside, Number.toNat, hcount]
  rfl

/-- Every index comes to something. -/
theorem exists_outcome (elements : List Value) (x : Number) :
    ∃ outcome, Indexing elements x outcome := by
  rcases hcount : x.count with i | _ | _
  · obtain ⟨hfinite, hvalue⟩ := Number.count_eq_integer_iff.1 hcount
    by_cases houtside : i < 0 ∨ (Number.ofNat elements.length).value ≤ i
    · exact ⟨_, .outside hfinite hvalue houtside⟩
    · rw [not_or, not_lt, not_le] at houtside
      obtain ⟨i, rfl⟩ := Int.eq_ofNat_of_zero_le houtside.1
      have hbelow : (i : ℚ) < (Number.ofNat elements.length).value := by
        exact_mod_cast houtside.2
      have hvalue : x.value = i := by exact_mod_cast hvalue
      have hinside := Builtin.lt_of_placeOf (placeOf_found hfinite hvalue hbelow)
      exact ⟨_, .found hfinite hvalue hbelow hinside⟩
  · exact ⟨_, .infinite (Number.count_eq_infinite_iff.1 hcount)⟩
  · exact ⟨_, .nonInteger (Number.count_eq_none_iff.1 hcount)⟩

theorem elementAt_eq {outcome : Outcome Value} (h : Indexing elements x outcome)
    (context : Context) : Builtin.elementAt elements x context = (outcome, context) := by
  cases h with
  | nonInteger h =>
      rw [Builtin.elementAt_of_error (if_pos (Number.count_eq_none_iff.2 h))]
      rfl
  | infinite h =>
      have hcount : x.count ≠ .none := by simp [Number.count_eq_infinite_iff.2 h]
      have houtside : x.value < 0 ∨ (Number.ofNat elements.length).value ≤ x.value :=
        h.value_cases.imp_right fun hall => hall elements.length
      have hplace := placeOf_eq elements.length hcount
      rw [if_pos houtside] at hplace
      rw [Builtin.elementAt_of_error hplace]
      rfl
  | @outside i hfinite hvalue houtside =>
      have hcount : x.count ≠ .none := by
        simp [Number.count_eq_integer_iff.2 ⟨hfinite, hvalue⟩]
      have hplace := placeOf_eq elements.length hcount
      rw [hvalue, if_pos (houtside.imp_left Int.cast_lt_zero.2)] at hplace
      rw [Builtin.elementAt_of_error hplace]
      rfl
  | found hfinite hvalue hbelow hinside =>
      rw [Builtin.elementAt_of_ok (placeOf_found hfinite hvalue hbelow)]
      rfl

end Indexing

/-! ## Expressions for sequences -/

namespace Expr

/-- Evaluated in the context, the expression comes to a sequence of that kind. -/
def YieldsSequence (expr : Expr) (context : Context) (kind : Kind) (elements : List Value)
    (after : Context) : Prop :=
  ∃ value : Value, expr.EndsAs context (.done value) after ∧ value.kind = kind ∧
    value.elements? = some elements

variable {first second sequence index : Expr} {context middle after : Context} {kind : Kind}
  {elements more : List Value}

theorem EndsAs.of_variable {token : Token} {value : Value} (hkind : token.kind = .identifier)
    (h : context.memory.lookup token.spelling = .ok value) :
    (simple token).EndsAs context (.done value) context :=
  ⟨nofun, 1, evaluate_variable hkind h 0⟩

theorem YieldsSequence.cat (hfirst : first.YieldsSequence context kind elements middle)
    (hsecond : second.YieldsSequence middle kind more after) :
    (call ⟨"cat"⟩ [first, second]).YieldsSequence context kind (elements ++ more) after := by
  obtain ⟨u, hu, rfl, helements⟩ := hfirst
  obtain ⟨v, hv, hkind, hmore⟩ := hsecond
  obtain ⟨bound, hbound⟩ := hu.of_le
  obtain ⟨enough, henough⟩ := hv.of_le
  have hname : Builtin.named? (Token.mk "cat").spelling = some Combiner.cat.builtin := by decide
  have hrun (value : Value) (hjoin : ∀ bound, evaluate bound second middle = (.done v, after) →
      Combiner.cat.resume (evaluate bound) u [second] middle = (.done value, after)) :
      (call ⟨"cat"⟩ [first, second]).EndsAs context (.done value) after := by
    refine ⟨nofun, max bound enough + 1, ?_⟩
    rw [evaluate_pair hname, Action.bind_eq, hbound _ (Nat.le_max_left ..)]
    exact hjoin _ (henough _ (Nat.le_max_right ..))
  cases u with
  | list us =>
      cases v with
      | list vs =>
          obtain rfl := Option.some.inj helements
          obtain rfl := Option.some.inj hmore
          refine ⟨.list (us ++ vs), hrun _ fun bound hsecond => ?_, rfl, rfl⟩
          rw [Combiner.resume, Builtin.joinLists, Action.bind_eq, hsecond]
          rfl
      | _ => cases hkind
  | string text =>
      cases v with
      | string rest =>
          obtain rfl := Option.some.inj helements
          obtain rfl := Option.some.inj hmore
          refine ⟨.string (text ++ rest), hrun _ fun bound hsecond => ?_, rfl, ?_⟩
          · rw [Combiner.resume, Builtin.joinStrings, Action.bind_eq, hsecond]
            rfl
          · rw [Value.elements?, String.toList_append, List.map_append]
      | _ => cases hkind
  | _ => cases helements

theorem YieldsSequence.len (h : sequence.YieldsSequence context kind elements after) :
    (call ⟨"len"⟩ [sequence]).EndsAs context (.done (.number (.ofNat elements.length))) after := by
  obtain ⟨value, hvalue, -, helements⟩ := h
  obtain ⟨bound, hbound⟩ := hvalue.of_le
  have hname : Builtin.named? (Token.mk "len").spelling = some .len := by decide
  refine ⟨nofun, bound + 1, ?_⟩
  rw [evaluate_builtin hname, Builtin.apply, Action.bind_eq, hbound _ (Nat.le_refl bound)]
  dsimp only
  rw [Builtin.expectSequence_of_elements helements]
  rfl

theorem YieldsSequence.get {x : Number} {outcome : Outcome Value}
    (h : sequence.YieldsSequence context kind elements middle)
    (hindex : index.EndsAs middle (.done (.number x)) after) (hx : Indexing elements x outcome) :
    (call ⟨"get"⟩ [sequence, index]).EndsAs context outcome after := by
  obtain ⟨value, hvalue, -, helements⟩ := h
  obtain ⟨bound, hbound⟩ := hvalue.of_le
  obtain ⟨enough, henough⟩ := hindex.of_le
  have hname : Builtin.named? (Token.mk "get").spelling = some .get := by decide
  have hends : outcome ≠ .unfinished := by cases hx <;> nofun
  refine ⟨hends, max bound enough + 1, ?_⟩
  rw [evaluate_builtin hname, Builtin.apply, Action.bind_eq, hbound _ (Nat.le_max_left ..)]
  dsimp only
  rw [Builtin.expectSequence_of_elements helements, Action.bind_eq]
  change (evaluate (max bound enough) index >>= fun value =>
    Builtin.expectNumber "get" value >>= Builtin.elementAt elements) middle = _
  rw [Action.bind_eq, henough _ (Nat.le_max_right ..)]
  exact hx.elementAt_eq after

theorem YieldsSequence.get_iff {x : Number}
    (h : sequence.YieldsSequence context kind elements middle)
    (hindex : index.EndsAs middle (.done (.number x)) after) (outcome : Outcome Value)
    (last : Context) :
    (call ⟨"get"⟩ [sequence, index]).EndsAs context outcome last ↔
      Indexing elements x outcome ∧ last = after := by
  constructor
  · intro hends
    obtain ⟨another, hx⟩ := Indexing.exists_outcome elements x
    obtain ⟨rfl, rfl⟩ := (h.get hindex hx).unique hends
    exact ⟨hx, rfl⟩
  · rintro ⟨hx, rfl⟩
    exact h.get hindex hx

end Expr

theorem log2_add_le {n m : Nat} (hn : n < 2 ^ 53) (hm : m < 2 ^ 53) : (n + m).log2 ≤ 1022 := by
  by_cases hzero : n + m = 0
  · rw [hzero]
    decide
  · have hlog : (n + m).log2 < 54 := (Nat.log2_lt hzero).2 (by omega)
    omega

/-- Two sequences of one kind, the second evaluated behind the first, have together as many elements
as the parts, which `len` gives as the nearest number, and as that number itself if there is one. An
index below what `len` gives is below the sum of the lengths. Below the length of the first sequence
it finds its element there, and otherwise in the second. Whatever the sequence and the number, `get`
finds the element at that index if there is one below the number for the length and tells otherwise
what is wrong with the index, and the place that it takes lies within the sequence. -/
theorem joined_sequences_indexed {first second : Expr} {context middle after : Context}
    {kind : Kind} {elements more : List Value}
    (hfirst : first.YieldsSequence context kind elements middle)
    (hsecond : second.YieldsSequence middle kind more after)
    (hlength : elements.length < 2 ^ 53) (hmore : more.length < 2 ^ 53) :
    let joined : Expr := .call ⟨"cat"⟩ [first, second]
    (∃ length : Number,
      (Expr.call ⟨"len"⟩ [joined]).EndsAs context (.done (.number length)) after ∧
      length.IsNearest (elements.length + more.length) ∧
      ((elements.length + more.length ≤ 2 ^ 53 ∨
          ∃ y : Number, y.IsFinite ∧ y.value = elements.length + more.length) →
        length.value = elements.length + more.length) ∧
      ∀ (index : Expr) (x : Number) (i : Nat) (last : Context),
        index.EndsAs after (.done (.number x)) last → x.IsFinite → x.value = i →
          i < length.value →
            i < elements.length + more.length ∧
            (∀ hi : i < elements.length,
              (Expr.call ⟨"get"⟩ [joined, index]).EndsAs context (.done elements[i]) last) ∧
            (elements.length ≤ i → ∀ hi : i - elements.length < more.length,
              (Expr.call ⟨"get"⟩ [joined, index]).EndsAs context
                (.done more[i - elements.length]) last)) ∧
    (∀ (sequence index : Expr) (start next stop : Context) (kind : Kind) (members : List Value)
      (x : Number), sequence.YieldsSequence start kind members next →
        index.EndsAs next (.done (.number x)) stop → ∀ (outcome : Outcome Value) (last : Context),
          (Expr.call ⟨"get"⟩ [sequence, index]).EndsAs start outcome last ↔
            Indexing members x outcome ∧ last = stop) ∧
    ∀ (length place : Nat) (x : Number), Builtin.placeOf length x = .ok place → place < length := by
  intro joined
  have hjoined : joined.YieldsSequence context kind (elements ++ more) after := hfirst.cat hsecond
  have hnearest := Number.isNearest_ofNat (log2_add_le hlength hmore)
  refine ⟨⟨.ofNat (elements ++ more).length, hjoined.len, ?_, ?_, ?_⟩, ?_, ?_⟩
  · rw [List.length_append, ← Nat.cast_add]
    exact hnearest
  · rw [List.length_append, ← Nat.cast_add]
    rintro (hle | ⟨y, hfinite, hvalue⟩)
    · exact Number.value_ofNat_of_le hle
    · exact hnearest.value_eq hfinite hvalue
  · intro index x i last hindex hfinite hvalue hbelow
    have hinside := Builtin.lt_of_placeOf (Indexing.placeOf_found hfinite hvalue hbelow)
    have hx := Indexing.found hfinite hvalue hbelow hinside
    refine ⟨by rwa [List.length_append] at hinside, fun hi => ?_, fun hle hi => ?_⟩
    · rw [List.getElem_append_left hi] at hx
      exact hjoined.get hindex hx
    · rw [List.getElem_append_right hle] at hx
      exact hjoined.get hindex hx
  · intro sequence index start next stop kind members x hsequence hindex
    exact hsequence.get_iff hindex
  · intro length place x
    exact Builtin.lt_of_placeOf

/-- A list of that length, another one of two elements, and the next number as an index. -/
def longContext (length : Nat) : Context where
  memory :=
    ⟨{ bindings := ⟨[("u", some (.list (.replicate length (.boolean true)))),
        ("v", some (.list [.boolean true, .boolean false])),
        ("n", some (.number (.ofNat (length + 1))))]⟩ }, []⟩

/-- Each call of the function declares another one, which may be done only once. -/
def declaringContext : Context where
  functions := ⟨[("f", ⟨⟨"f"⟩, [], [.func ⟨"g"⟩ [] [], .return (.list [.simple ⟨"true"⟩])]⟩)]⟩

section

variable (length : Nat)

theorem yieldsSequence_long :
    (Expr.simple ⟨"u"⟩).YieldsSequence (longContext length) .list
        (.replicate length (.boolean true)) (longContext length) ∧
      (Expr.simple ⟨"v"⟩).YieldsSequence (longContext length) .list
        [.boolean true, .boolean false] (longContext length) ∧
      (Expr.simple ⟨"n"⟩).EndsAs (longContext length) (.done (.number (.ofNat (length + 1))))
        (longContext length) :=
  ⟨⟨_, .of_variable (by decide +kernel) rfl, rfl, rfl⟩,
    ⟨_, .of_variable (by decide +kernel) rfl, rfl, rfl⟩, .of_variable (by decide +kernel) rfl⟩

theorem yieldsSequence_joined_long :
    (Expr.call ⟨"cat"⟩ [.simple ⟨"u"⟩, .simple ⟨"v"⟩]).YieldsSequence (longContext length) .list
      (.replicate length (.boolean true) ++ [.boolean true, .boolean false])
      (longContext length) :=
  (yieldsSequence_long length).1.cat (yieldsSequence_long length).2.1

end

theorem yieldsSequence_declaring :
    (Expr.call ⟨"f"⟩ []).YieldsSequence declaringContext .list [.boolean true]
      (evaluate 9 (.call ⟨"f"⟩ []) declaringContext).2 := by
  refine ⟨.list [.boolean true], ⟨nofun, 9, Prod.ext ?_ rfl⟩, rfl, rfl⟩
  rfl

/-- The lengths of joined lists do not add up where no number is their sum, and an index below the
sum may be out of bounds then. Nor do they where the second list, which could be evaluated by
itself, cannot be evaluated behind the first. -/
theorem joined_lengths_not_added :
    let context := longContext (2 ^ 53 - 1)
    let joined : Expr := .call ⟨"cat"⟩ [.simple ⟨"u"⟩, .simple ⟨"v"⟩]
    let call : Expr := .call ⟨"f"⟩ []
    ((Expr.simple ⟨"u"⟩).YieldsSequence context .list (.replicate (2 ^ 53 - 1) (.boolean true))
        context ∧
      (Expr.simple ⟨"v"⟩).YieldsSequence context .list [.boolean true, .boolean false] context ∧
      (∀ (x : Number) (last : Context),
        (Expr.call ⟨"len"⟩ [joined]).EndsAs context (.done (.number x)) last →
          x.value ≠ 2 ^ 53 - 1 + 2) ∧
      (Expr.simple ⟨"n"⟩).EndsAs context (.done (.number (.ofNat (2 ^ 53)))) context ∧
      (Number.ofNat (2 ^ 53)).value = 2 ^ 53 ∧
      (Expr.call ⟨"get"⟩ [joined, .simple ⟨"n"⟩]).EndsAs context
        (.failed (.running (.indexOutOfBounds (.ofNat (2 ^ 53)) (2 ^ 53 + 1)))) context) ∧
    (∃ after, call.YieldsSequence declaringContext .list [.boolean true] after) ∧
      ∀ (x : Number) (last : Context),
        ¬ (Expr.call ⟨"len"⟩ [.call ⟨"cat"⟩ [call, call]]).EndsAs declaringContext
          (.done (.number x)) last := by
  intro context joined call
  obtain ⟨hu, hv, hn⟩ := yieldsSequence_long (2 ^ 53 - 1)
  have hjoined := yieldsSequence_joined_long (2 ^ 53 - 1)
  have hlength : (List.replicate (2 ^ 53 - 1) (Value.boolean true) ++
      [Value.boolean true, .boolean false]).length = 2 ^ 53 + 1 := by
    rw [List.length_append, List.length_replicate]
    rfl
  have hsame : Number.ofNat (2 ^ 53 + 1) = .ofNat (2 ^ 53) := by decide +kernel
  have hfinite : (Number.ofNat (2 ^ 53)).IsFinite := Number.isFinite_ofNat (by decide +kernel)
  have hvalue : (Number.ofNat (2 ^ 53)).value = 2 ^ 53 := by
    rw [Number.value_ofNat_of_le (Nat.le_refl _)]
    norm_num
  refine ⟨⟨hu, hv, fun x last hlen => ?_, hn, hvalue, ?_⟩, ⟨_, yieldsSequence_declaring⟩,
    fun x last hends => ?_⟩
  · have hends := hjoined.len
    rw [hlength, hsame] at hends
    obtain ⟨hx, -⟩ := hends.unique hlen
    rw [Value.number.inj (Outcome.done.inj hx), hvalue]
    norm_num
  · have hx : Indexing (List.replicate (2 ^ 53 - 1) (Value.boolean true) ++
        [Value.boolean true, .boolean false]) (.ofNat (2 ^ 53)) _ :=
      .outside (i := 2 ^ 53) hfinite (by exact_mod_cast hvalue) (.inr ?_)
    · rw [hlength] at hx
      exact hjoined.get hn hx
    · rw [hlength, hsame, hvalue]
      norm_num
  · have hfails : (evaluate 9 (.call ⟨"len"⟩ [.call ⟨"cat"⟩ [call, call]]) declaringContext).1 =
        .failed (.running (.functionRedeclared "g")) := by decide +kernel
    have hother : (Expr.call ⟨"len"⟩ [.call ⟨"cat"⟩ [call, call]]).EndsAs declaringContext
        (.failed (.running (.functionRedeclared "g"))) _ :=
      ⟨nofun, 9, Prod.ext hfails rfl⟩
    cases (hother.unique hends).1

/-- Sequences and indexes in variables. -/
def indexedContext : Context where
  memory :=
    ⟨{ bindings := ⟨[("u", some (.list [.boolean true, .character 'a'])),
        ("v", some (.list [.string "b"])), ("s", some (.string "cd")),
        ("n", some (.number (.ofNat 2))), ("z", some (.number (.ofMagnitude true 0)))]⟩ }, []⟩

/-- The third element of the joined lists is the first one of the second list. Minus zero is the
index of the first character, and a string of two characters has none at two. -/
theorem joined_lists_indexed :
    let ends (expr : Expr) (outcome : Outcome Value) : Prop :=
      expr.EndsAs indexedContext outcome indexedContext
    let joined : Expr := .call ⟨"cat"⟩ [.simple ⟨"u"⟩, .simple ⟨"v"⟩]
    (Expr.simple ⟨"u"⟩).YieldsSequence indexedContext .list [.boolean true, .character 'a']
        indexedContext ∧
      (Expr.simple ⟨"v"⟩).YieldsSequence indexedContext .list [.string "b"] indexedContext ∧
      (∃ x : Number, ends (.call ⟨"len"⟩ [joined]) (.done (.number x)) ∧ x.value = 3) ∧
      ends (.call ⟨"get"⟩ [joined, .simple ⟨"n"⟩]) (.done (.string "b")) ∧
      ends (.call ⟨"get"⟩ [.simple ⟨"s"⟩, .simple ⟨"z"⟩]) (.done (.character 'c')) ∧
      ends (.call ⟨"get"⟩ [.simple ⟨"s"⟩, .simple ⟨"n"⟩])
        (.failed (.running (.indexOutOfBounds (.ofNat 2) 2))) := by
  intro ends joined
  have hu : (Expr.simple ⟨"u"⟩).YieldsSequence indexedContext .list
      [.boolean true, .character 'a'] indexedContext :=
    ⟨_, .of_variable (by decide +kernel) rfl, rfl, rfl⟩
  have hv : (Expr.simple ⟨"v"⟩).YieldsSequence indexedContext .list [.string "b"]
      indexedContext :=
    ⟨_, .of_variable (by decide +kernel) rfl, rfl, rfl⟩
  have hs : (Expr.simple ⟨"s"⟩).YieldsSequence indexedContext .string
      [.character 'c', .character 'd'] indexedContext :=
    ⟨_, .of_variable (by decide +kernel) rfl, rfl, rfl⟩
  have hn : ends (.simple ⟨"n"⟩) (.done (.number (.ofNat 2))) :=
    .of_variable (by decide +kernel) rfl
  have hz : ends (.simple ⟨"z"⟩) (.done (.number (.ofMagnitude true 0))) :=
    .of_variable (by decide +kernel) rfl
  have htwo : (Number.ofNat 2).value = (2 : Nat) := Number.value_ofNat_of_le (by decide)
  have hfinite : (Number.ofNat 2).IsFinite := Number.isFinite_ofNat (by decide)
  have hzero : (Number.ofMagnitude true 0).value = (0 : Nat) :=
    Number.value_of_magnitude_eq_zero (by decide)
  have hsmall : (Number.ofMagnitude true 0).IsFinite := .of_magnitude_eq_zero (by decide)
  obtain ⟨⟨x, hlen, -, hvalue, hindexed⟩, hget, -⟩ :=
    joined_sequences_indexed hu hv (by decide) (by decide)
  have hthree : x.value = 3 := by
    rw [hvalue (.inl (by decide))]
    norm_num
  have hlength : (Number.ofNat [Value.character 'c', .character 'd'].length).value = 2 := htwo
  refine ⟨hu, hv, ⟨x, hlen, hthree⟩, ?_, ?_, ?_⟩
  · have hbelow : ((2 : Nat) : ℚ) < x.value := by
      rw [hthree]
      norm_num
    exact (hindexed _ _ 2 _ hn hfinite htwo hbelow).2.2 (by decide) (by decide)
  · have hinside : Indexing [.character 'c', .character 'd'] (.ofMagnitude true 0)
        (.done (.character 'c')) := by
      refine .found (i := 0) hsmall hzero ?_ (by decide)
      rw [hlength]
      norm_num
    exact (hget _ _ _ _ _ _ _ _ hs hz _ _).2 ⟨hinside, rfl⟩
  · have houtside : Indexing [.character 'c', .character 'd'] (.ofNat 2)
        (.failed (.running (.indexOutOfBounds (.ofNat 2) 2))) :=
      .outside hfinite htwo (.inr hlength.le)
    exact (hget _ _ _ _ _ _ _ _ hs hn _ _).2 ⟨houtside, rfl⟩

end TinyScript
