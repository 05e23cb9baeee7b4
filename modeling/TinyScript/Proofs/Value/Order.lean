import Mathlib.Data.List.Chain
import Mathlib.Data.List.Forall2
import TinyScript.Proofs.Run.Chains
import TinyScript.Proofs.Run.Understanding

/-!
# The order within a kind

The values of one kind are ordered as integers or as texts are: numbers, truth values and characters
by their places, strings and lists by their texts (`Value.compare_eq_ok_iff`). So each kind is
totally preordered, and every relation but `!=` passes along a chain: what holds between all
neighbours holds between any two (`values_ordered_within_kinds`).
-/

namespace TinyScript

/-! ## Numbers -/

namespace Number

/-- The pattern as a signed integer, after all bits but the sign have been flipped if the sign is
set. -/
def totalOrderKey (x : Number) : Int :=
  let signed := x.bits.toBitVec
  (signed ^^^ (signed.sshiftRight 63 >>> 1)).toInt

private theorem ushiftRight_of_lt {signed : BitVec 64} (h : signed.msb = false) :
    signed >>> 63 = 0#64 := by
  apply BitVec.eq_of_toNat_eq
  rw [BitVec.toNat_ushiftRight, Nat.shiftRight_eq_div_pow,
    Nat.div_eq_of_lt (BitVec.toNat_lt_of_msb_false h)]
  rfl

private theorem toInt_of_positive {signed : BitVec 64} (h : signed.msb = false) :
    (signed ^^^ (signed.sshiftRight 63 >>> 1)).toInt = signed.toNat := by
  have hmask : 0#64 >>> 1 = 0#64 := rfl
  rw [BitVec.sshiftRight_eq_of_msb_false h, ushiftRight_of_lt h, hmask, BitVec.xor_zero,
    BitVec.toInt_eq_toNat_of_msb h]

private theorem toInt_of_negative {signed : BitVec 64} (h : signed.msb = true) :
    (signed ^^^ (signed.sshiftRight 63 >>> 1)).toInt =
      -1 - ((signed.toNat - Nat.pow 2 63 : Nat) : Int) := by
  have hflipped : (~~~signed).msb = false := by simp [h]
  have hmask : ~~~0#64 >>> 1 = BitVec.cons false (BitVec.allOnes 63) := by decide
  have hsigned := BitVec.cons_msb_setWidth signed
  have hhigh : 2 ^ 63 ≤ signed.toNat := BitVec.le_toNat_of_msb_true h
  rw [h] at hsigned
  rw [BitVec.sshiftRight_eq_of_msb_true h, ushiftRight_of_lt hflipped, hmask]
  conv_lhs => rw [← hsigned, BitVec.cons_xor_cons, BitVec.xor_allOnes]
  rw [Bool.xor_false, BitVec.toInt_eq_msb_cond, BitVec.msb_cons, if_pos rfl, BitVec.toNat_cons',
    BitVec.toNat_not, BitVec.toNat_setWidth]
  simp only [Bool.toNat_true, Nat.shiftLeft_eq, Nat.one_mul, Nat.pow_eq]
  omega

/-- The line of all numbers is the total order on their patterns. -/
theorem rank_eq_totalOrderKey (x : Number) : x.rank = x.totalOrderKey := by
  have hlt := x.bits.toNat_lt
  unfold rank totalOrderKey isNegative magnitude
  cases h : x.bits.toBitVec.msb with
  | false =>
      have hlow := BitVec.toNat_lt_of_msb_false h
      rw [toInt_of_positive h]
      rw [UInt64.toNat_toBitVec] at hlow ⊢
      simp only [decide_eq_true_eq, Nat.pow_eq]
      rw [if_neg (by omega), Nat.mod_eq_of_lt (by omega)]
  | true =>
      have hhigh := BitVec.le_toNat_of_msb_true h
      rw [toInt_of_negative h]
      rw [UInt64.toNat_toBitVec] at hhigh ⊢
      simp only [decide_eq_true_eq, Nat.pow_eq]
      rw [if_pos (by omega)]
      omega

end Number

/-! ## Values of one kind -/

namespace Value

/-- Where a value stands among those of its kind, unless they are ordered by text. -/
def place : Value → Int
  | number x => x.rank
  | boolean b => b.toNat
  | character c => c.toNat
  | string _ | list _ => 0

/-- The text by which strings and lists are ordered. -/
def sortText : Value → String
  | string text => text
  | list elements => (list elements).render
  | number _ | boolean _ | character _ => ""

/-- The order of values by place and then by text. -/
def order : Value → Value → Ordering :=
  compareLex (compareOn place) (compareOn sortText)

instance : Std.TransCmp order :=
  inferInstanceAs (Std.TransCmp (compareLex (compareOn place) (compareOn sortText)))

variable {u v w : Value}

private theorem compare_natCast (m n : Nat) : Ord.compare (m : Int) n = Ord.compare m n := by
  rw [Int.compare_eq_ite_lt, Nat.compare_eq_ite_lt]
  simp only [Int.ofNat_lt]

theorem compare_of_kind_eq (h : u.kind = v.kind) : u.compare v = .ok (u.order v) := by
  have htext : Ord.compare "" "" = .eq := Std.ReflCmp.compare_self
  cases u <;> cases v <;>
    simp_all [kind, compare, order, compareLex, compareOn, place, sortText, compareText,
      compare_natCast, Std.ReflCmp.compare_self]
  all_goals rfl

theorem compare_of_kind_ne (h : u.kind ≠ v.kind) :
    u.compare v = .error (.comparisonMismatch u.kind v.kind) := by
  cases u <;> cases v <;> first | rfl | exact absurd rfl h

theorem compare_eq_ok_iff {found : Ordering} :
    u.compare v = .ok found ↔ u.kind = v.kind ∧ u.order v = found := by
  by_cases h : u.kind = v.kind
  · simp [compare_of_kind_eq h, h]
  · simp [compare_of_kind_ne h, h]

theorem compare_self (u : Value) : u.compare u = .ok .eq :=
  compare_eq_ok_iff.2 ⟨rfl, Std.ReflCmp.compare_self⟩

theorem compare_swap {found : Ordering} (h : u.compare v = .ok found) :
    v.compare u = .ok found.swap := by
  obtain ⟨hkind, rfl⟩ := compare_eq_ok_iff.1 h
  exact compare_eq_ok_iff.2 ⟨hkind.symm, Std.OrientedCmp.eq_swap⟩

/-- Two steps that do not go down come to one, which goes up if one of them does. -/
theorem compare_trans {first second : Ordering} (huv : u.compare v = .ok first)
    (hvw : v.compare w = .ok second) (hfirst : first.isLE = true) (hsecond : second.isLE = true) :
    u.compare w = .ok (first.then second) := by
  obtain ⟨hkind, rfl⟩ := compare_eq_ok_iff.1 huv
  obtain ⟨hkind', rfl⟩ := compare_eq_ok_iff.1 hvw
  refine compare_eq_ok_iff.2 ⟨hkind.trans hkind', ?_⟩
  rw [Ordering.isLE_iff_eq_lt_or_eq_eq] at hfirst hsecond
  rcases hfirst with hfirst | hfirst
  · rcases hsecond with hsecond | hsecond
    · rw [hfirst]
      exact Std.TransCmp.lt_trans hfirst hsecond
    · rw [hfirst]
      exact Std.TransCmp.lt_of_lt_of_eq hfirst hsecond
  · rw [hfirst]
    exact Std.TransCmp.congr_left hfirst

end Value

/-! ## Relations -/

namespace Relation

variable {operation : Relation} {u v w : Value}

/-- The values are of one kind, and the relation holds between them. -/
def Relates (operation : Relation) (u v : Value) : Prop :=
  ∃ found, u.compare v = .ok found ∧ operation.holds found = true

theorem relates_iff :
    operation.Relates u v ↔ u.kind = v.kind ∧ operation.holds (u.order v) = true := by
  constructor
  · rintro ⟨found, hfound, hholds⟩
    obtain ⟨hkind, rfl⟩ := Value.compare_eq_ok_iff.1 hfound
    exact ⟨hkind, hholds⟩
  · rintro ⟨hkind, hholds⟩
    exact ⟨_, Value.compare_of_kind_eq hkind, hholds⟩

theorem relates_iff_of_kind (h : u.kind = v.kind) :
    operation.Relates u v ↔ operation.holds (u.order v) = true := by
  rw [relates_iff, and_iff_right h]

/-- Every relation but `!=` goes from neighbours to values farther apart. -/
theorem Relates.trans (h : operation ≠ .different) (huv : operation.Relates u v)
    (hvw : operation.Relates v w) : operation.Relates u w := by
  rw [relates_iff] at huv hvw ⊢
  refine ⟨huv.1.trans hvw.1, ?_⟩
  obtain ⟨-, huv⟩ := huv
  obtain ⟨-, hvw⟩ := hvw
  cases operation with
  | equal =>
      rw [holds, Ordering.isEq_iff_eq_eq] at huv hvw ⊢
      exact Std.TransCmp.eq_trans huv hvw
  | different => exact absurd rfl h
  | less =>
      rw [holds, Ordering.isLT_iff_eq_lt] at huv hvw ⊢
      exact Std.TransCmp.lt_trans huv hvw
  | atMost => exact Std.TransCmp.isLE_trans huv hvw
  | greater =>
      rw [holds, Ordering.isGT_iff_eq_gt] at huv hvw ⊢
      exact Std.TransCmp.gt_trans huv hvw
  | atLeast => exact Std.TransCmp.isGE_trans huv hvw

/-- Exactly one of the three strict relations holds within a kind. -/
theorem exists_unique_of_kind (h : u.kind = v.kind) :
    ∃ operation ∈ [less, equal, greater], ∀ other ∈ [less, equal, greater],
      other.Relates u v ↔ other = operation := by
  have hholds : ∀ found : Ordering, ∃ operation ∈ [less, equal, greater],
      ∀ other ∈ [less, equal, greater], other.holds found = true ↔ other = operation := by
    decide
  simp only [relates_iff_of_kind h]
  exact hholds (u.order v)

theorem complement_of_kind (h : u.kind = v.kind) :
    (atMost.Relates u v ↔ ¬ greater.Relates u v) ∧
      (atLeast.Relates u v ↔ ¬ less.Relates u v) ∧
      (different.Relates u v ↔ ¬ equal.Relates u v) := by
  have hholds : ∀ found : Ordering,
      (atMost.holds found = true ↔ ¬ greater.holds found = true) ∧
        (atLeast.holds found = true ↔ ¬ less.holds found = true) ∧
        (different.holds found = true ↔ ¬ equal.holds found = true) := by
    decide
  simp only [relates_iff_of_kind h]
  exact hholds (u.order v)

theorem isChain_iff_pairwise (h : operation ≠ .different) {values : List Value} :
    values.IsChain operation.Relates ↔ values.Pairwise operation.Relates := by
  let _ : Trans operation.Relates operation.Relates operation.Relates := ⟨Relates.trans h⟩
  exact List.isChain_iff_pairwise

end Relation

/-! ## Lists and chains of values -/

/-- Elements that evaluate to values, one after the other, make up a list of these. -/
theorem evaluateAll_of_values {evaluate : Expr → Action Value} {context : Context}
    {exprs : List Expr} {values : List Value}
    (h : List.Forall₂ (fun expr value => evaluate expr context = (.done value, context))
      exprs values) : evaluateAll evaluate exprs context = (.done values, context) := by
  induction h with
  | nil => rfl
  | cons hfirst _ ih =>
      rw [evaluateAll, Action.bind_eq, hfirst]
      simp only [Action.bind_eq, ih]
      rfl

theorem evaluate_list {bound : Nat} {context : Context} {exprs : List Expr} {values : List Value}
    (h : List.Forall₂ (fun expr value => evaluate bound expr context = (.done value, context))
      exprs values) :
    evaluate (bound + 1) (.list exprs) context = (.done (.list values), context) := by
  rw [evaluate, Action.bind_eq, evaluateAll_of_values h]
  rfl

/-- A chain over values of one kind tells whether all neighbours are so related. -/
theorem compareNeighbours_of_values {evaluate : Expr → Action Value} (operation : Relation)
    {context : Context} {kind : Kind} {arguments : List Expr} {values : List Value}
    (hvalues : List.Forall₂ (fun argument value =>
      evaluate argument context = (.done value, context)) arguments values)
    (hkind : ∀ value ∈ values, value.kind = kind) :
    ∃ b, Builtin.compareNeighbours evaluate operation arguments context =
        (.done (.boolean b), context) ∧ (b = true ↔ values.IsChain operation.Relates) := by
  induction hvalues with
  | nil => exact ⟨true, rfl, iff_of_true rfl .nil⟩
  | @cons first u arguments values hfirst hrest ih =>
      cases hrest with
      | nil => exact ⟨true, rfl, iff_of_true rfl (.singleton u)⟩
      | @cons second v rest others hsecond _ =>
          have hsame : u.kind = v.kind :=
            (hkind u (by simp)).trans (hkind v (by simp)).symm
          obtain ⟨b, hchain, hb⟩ := ih fun value hvalue => hkind value (by simp [hvalue])
          simp only [Builtin.compareNeighbours_cons_cons, hfirst, hsecond,
            Value.compare_of_kind_eq hsame, List.isChain_cons_cons,
            Relation.relates_iff_of_kind hsame]
          by_cases hholds : operation.holds (u.order v) = true
          · rw [if_pos hholds, hchain]
            exact ⟨b, rfl, by rw [hb, and_iff_right hholds]⟩
          · rw [if_neg hholds]
            exact ⟨false, rfl, iff_of_false nofun fun h => hholds h.1⟩

/-- Two values can be compared exactly if they are of one kind. Within a kind a value equals itself,
turning the sides round reverses the result, and steps that do not go down come to one that goes up
if one of them does. Numbers follow the total order on their patterns. So exactly one of `<`, `==`
and `>` holds within a kind, the other three relations are their complements, and a chain tells
whether all neighbours are so related, for every relation but `!=` whether any two values are. -/
theorem values_ordered_within_kinds :
    (∀ u v : Value, (∃ found, u.compare v = .ok found) ↔ u.kind = v.kind) ∧
    (∀ u : Value, u.compare u = .ok .eq) ∧
    (∀ (u v : Value) (found : Ordering), u.compare v = .ok found →
      v.compare u = .ok found.swap) ∧
    (∀ (u v w : Value) (first second : Ordering), u.compare v = .ok first →
      v.compare w = .ok second → first.isLE = true → second.isLE = true →
        u.compare w = .ok (first.then second)) ∧
    (∀ x y : Number, (Value.number x).compare (.number y) =
      .ok (Ord.compare x.totalOrderKey y.totalOrderKey)) ∧
    (∀ u v : Value, u.kind = v.kind →
      (∃ operation ∈ [Relation.less, .equal, .greater],
        ∀ other ∈ [Relation.less, .equal, .greater], other.Relates u v ↔ other = operation) ∧
      (Relation.atMost.Relates u v ↔ ¬ Relation.greater.Relates u v) ∧
      (Relation.atLeast.Relates u v ↔ ¬ Relation.less.Relates u v) ∧
      (Relation.different.Relates u v ↔ ¬ Relation.equal.Relates u v)) ∧
    (∀ operation : Relation, operation ≠ .different → ∀ values : List Value,
      values.IsChain operation.Relates → values.Pairwise operation.Relates) ∧
    ∀ (operation : Relation) (kind : Kind) (bound : Nat) (context : Context)
      (arguments : List Expr) (values : List Value), values ≠ [] →
      (∀ value ∈ values, value.kind = kind) →
      List.Forall₂ (fun argument value =>
        evaluate bound argument context = (.done value, context)) arguments values →
        ∃ b, evaluate (bound + 1) (.call ⟨operation.spelling⟩ arguments) context =
            (.done (.boolean b), context) ∧
          (b = true ↔ values.IsChain operation.Relates) ∧
          (operation ≠ .different → (b = true ↔ values.Pairwise operation.Relates)) := by
  refine ⟨?_, Value.compare_self, fun _ _ _ => Value.compare_swap,
    fun _ _ _ _ _ => Value.compare_trans, ?_, ?_,
    fun _ h _ => (Relation.isChain_iff_pairwise h).1, ?_⟩
  · intro u v
    simp only [Value.compare_eq_ok_iff, exists_and_left, exists_eq', and_true]
  · intro x y
    rw [Value.compare, x.rank_eq_totalOrderKey, y.rank_eq_totalOrderKey]
  · exact fun u v h => ⟨Relation.exists_unique_of_kind h, Relation.complement_of_kind h⟩
  · intro operation kind bound context arguments values hsome hkind hvalues
    have harguments : arguments ≠ [] := by
      rintro rfl
      exact hsome (List.forall₂_nil_left_iff.1 hvalues)
    obtain ⟨b, hchain, hb⟩ := compareNeighbours_of_values operation hvalues hkind
    rw [evaluate_chain operation harguments, hchain]
    exact ⟨b, rfl, hb, fun h => hb.trans (Relation.isChain_iff_pairwise h)⟩

/-- Lists whose texts are in order, whatever kinds their elements are of. -/
def risingLists : List Value :=
  [.list [.string "z"], .list [.character 'a'], .list [.list []], .list [.boolean true]]

def risingExprs : List Expr :=
  [.list [.simple ⟨"\"z\""⟩], .list [.simple ⟨"'a'"⟩], .list [.list []], .list [.simple ⟨"true"⟩]]

theorem risingLists_ordered :
    risingLists ≠ [] ∧ (∀ value ∈ risingLists, value.kind = .list) ∧
      List.Forall₂ (fun argument value => evaluate 3 argument {} = (.done value, {}))
        risingExprs risingLists ∧
      evaluate 4 (.call ⟨Relation.less.spelling⟩ risingExprs) {} = (.done (.boolean true), {}) ∧
      risingLists.Pairwise Relation.less.Relates ∧
      (Value.list [.boolean true]).compare (.list [.string "z"]) = .ok .gt := by
  obtain ⟨-, -, hswap, -, -, -, -, hchains⟩ := values_ordered_within_kinds
  have hsome : risingLists ≠ [] := by simp [risingLists]
  have hdiffer : Relation.less ≠ .different := by decide
  have hkind : ∀ value ∈ risingLists, value.kind = .list := by
    simp [risingLists, Value.kind]
  have hstring : Token.Denotes ⟨"\"z\""⟩ (.string "z") := .string (by decide) (by decide)
  have hcharacter : Token.Denotes ⟨"'a'"⟩ (.character 'a') := .character (by decide) (by decide)
  have htrue : Token.Denotes ⟨"true"⟩ (.boolean true) := .boolean (by decide) (by decide)
  have hvalues : List.Forall₂ (fun argument value => evaluate 3 argument {} = (.done value, {}))
      risingExprs risingLists :=
    .cons (evaluate_list (.cons (evaluate_literal hstring 1 {}) .nil))
      (.cons (evaluate_list (.cons (evaluate_literal hcharacter 1 {}) .nil))
        (.cons (evaluate_list (.cons (evaluate_list .nil) .nil))
          (.cons (evaluate_list (.cons (evaluate_literal htrue 1 {}) .nil)) .nil)))
  have hless : ∀ us vs : List Value,
      Value.compareText (Value.list us).render (Value.list vs).render = .lt →
        Relation.less.Relates (.list us) (.list vs) :=
    fun us vs h => ⟨.lt, congrArg Except.ok h, rfl⟩
  have hrising : risingLists.IsChain Relation.less.Relates :=
    .cons_cons (hless _ _ (by decide +kernel)) (.cons_cons (hless _ _ (by decide +kernel))
      (.cons_cons (hless _ _ (by decide +kernel)) (.singleton _)))
  obtain ⟨b, hchain, hb, hpairwise⟩ :=
    hchains .less .list 3 {} risingExprs risingLists hsome hkind hvalues
  obtain rfl : b = true := hb.2 hrising
  have hfirst : (Value.list [.string "z"]).compare (.list [.boolean true]) = .ok .lt :=
    congrArg Except.ok (by decide +kernel)
  exact ⟨hsome, hkind, hvalues, hchain, (hpairwise hdiffer).1 rfl, hswap _ _ _ hfirst⟩

end TinyScript
