import Mathlib.Data.List.Induction
import TinyScript.Proofs.Run.Bounds

/-!
# Operators of many arguments

The operators `+`, `*`, `/`, `and`, `or` and `cat` take two arguments or more and go through them
from left to right. What stands behind an argument sees of those before it nothing but the value
that they come to (`Combiner.resume_append`). So such a call does what a call of two arguments does,
the first of which is the call without the last argument (`variadic_operators_are_iterated`).
-/

namespace TinyScript

theorem Action.bind_assoc {α β γ : Type} (action : Action α) (next : α → Action β)
    (last : β → Action γ) :
    (action >>= next) >>= last = action >>= fun result => next result >>= last := by
  funext context
  rw [bind_eq, bind_eq, bind_eq]
  rcases action context with ⟨result | error | _, middle⟩ <;> rfl

/-! ## Going on behind an argument -/

/-- The operators that combine their arguments from left to right. -/
inductive Combiner where
  | arithmetic (operation : Arithmetic)
  | connective (operation : Connective)
  | cat

namespace Combiner

def builtin : Combiner → Builtin
  | arithmetic operation => .arithmetic operation
  | connective operation => .connective operation
  | cat => .cat

theorem exists_of_spelling {spelling : String}
    (h : spelling ∈ ["+", "*", "/", "cat", "and", "or"]) :
    ∃ combiner : Combiner, Builtin.named? spelling = some combiner.builtin := by
  simp only [List.mem_cons, List.not_mem_nil, or_false] at h
  rcases h with rfl | rfl | rfl | rfl | rfl | rfl
  · exact ⟨.arithmetic .add, by decide⟩
  · exact ⟨.arithmetic .multiply, by decide⟩
  · exact ⟨.arithmetic .divide, by decide⟩
  · exact ⟨.cat, by decide⟩
  · exact ⟨.connective .and, by decide⟩
  · exact ⟨.connective .or, by decide⟩

variable (evaluate : Expr → Action Value)

/-- What is done behind an argument that has the given value, or behind several that have been
combined to it. -/
def resume (value : Value) (arguments : List Expr) : Combiner → Action Value
  | arithmetic operation => do
    let x ← Builtin.expectNumber operation.spelling value
    Builtin.foldNumbers evaluate operation x arguments
  | connective operation => do
    let b ← Builtin.expectBoolean operation.spelling value
    if b = operation.decisive then return .boolean b
    else Builtin.connect evaluate operation arguments
  | cat =>
    match value with
    | .list elements => Builtin.joinLists evaluate elements arguments
    | .string text => Builtin.joinStrings evaluate text arguments
    | other => Builtin.wrongKind "cat" "list or string" other

theorem apply_eq (combiner : Combiner) (first second : Expr) (rest : List Expr) :
    combiner.builtin.apply evaluate (first :: second :: rest) =
      evaluate first >>= fun value => combiner.resume evaluate value (second :: rest) := by
  cases combiner <;> rfl

section

variable (arguments others : List Expr)

theorem foldNumbers_append (operation : Arithmetic) (x : Number) :
    Builtin.foldNumbers evaluate operation x (arguments ++ others) =
      Builtin.foldNumbers evaluate operation x arguments >>= fun value =>
        (arithmetic operation).resume evaluate value others := by
  induction arguments generalizing x with
  | nil => rfl
  | cons argument arguments ih =>
      rw [List.cons_append, Builtin.foldNumbers, Builtin.foldNumbers, Action.bind_assoc]
      congr 1
      funext value
      rw [Action.bind_assoc]
      congr 1
      funext y
      exact ih (operation.apply x y)

theorem connect_append (operation : Connective) :
    Builtin.connect evaluate operation (arguments ++ others) =
      Builtin.connect evaluate operation arguments >>= fun value =>
        (connective operation).resume evaluate value others := by
  induction arguments with
  | nil => cases operation <;> rfl
  | cons argument arguments ih =>
      rw [List.cons_append, Builtin.connect, Builtin.connect, Action.bind_assoc]
      congr 1
      funext value
      rw [Action.bind_assoc]
      congr 1
      funext b
      split
      · next hdecisive =>
          -- The argument decides the call, and then it decides what resumes behind it.
          change _ = (if b = operation.decisive then _ else _ : Action Value)
          rw [if_pos hdecisive]
      · exact ih

theorem joinLists_append (elements : List Value) :
    Builtin.joinLists evaluate elements (arguments ++ others) =
      Builtin.joinLists evaluate elements arguments >>= fun value =>
        cat.resume evaluate value others := by
  induction arguments generalizing elements with
  | nil => rfl
  | cons argument arguments ih =>
      rw [List.cons_append, Builtin.joinLists, Builtin.joinLists, Action.bind_assoc]
      congr 1
      funext value
      cases value with
      | list more => exact ih (elements ++ more)
      | _ => rfl

theorem joinStrings_append (text : String) :
    Builtin.joinStrings evaluate text (arguments ++ others) =
      Builtin.joinStrings evaluate text arguments >>= fun value =>
        cat.resume evaluate value others := by
  induction arguments generalizing text with
  | nil => rfl
  | cons argument arguments ih =>
      rw [List.cons_append, Builtin.joinStrings, Builtin.joinStrings, Action.bind_assoc]
      congr 1
      funext value
      cases value with
      | string more => exact ih (text ++ more)
      | _ => rfl

/-- What resumes behind several arguments needs of them only the value they were combined to. -/
theorem resume_append (combiner : Combiner) (value : Value) :
    combiner.resume evaluate value (arguments ++ others) =
      combiner.resume evaluate value arguments >>= fun combined =>
        combiner.resume evaluate combined others := by
  cases combiner with
  | arithmetic operation =>
      rw [resume, resume, Action.bind_assoc]
      congr 1
      funext x
      exact foldNumbers_append evaluate arguments others operation x
  | connective operation =>
      rw [resume, resume, Action.bind_assoc]
      congr 1
      funext b
      split
      · next hdecisive =>
          change _ = (if b = operation.decisive then _ else _ : Action Value)
          rw [if_pos hdecisive]
      · exact connect_append evaluate arguments others operation
  | cat =>
      cases value with
      | list elements => exact joinLists_append evaluate arguments others elements
      | string text => exact joinStrings_append evaluate arguments others text
      | _ => rfl

end

/-- The last argument is combined with what the others come to. -/
theorem apply_append (combiner : Combiner) {arguments : List Expr} (h : 2 ≤ arguments.length)
    (others : List Expr) :
    combiner.builtin.apply evaluate (arguments ++ others) =
      combiner.builtin.apply evaluate arguments >>= fun value =>
        combiner.resume evaluate value others := by
  obtain ⟨first, second, rest, rfl⟩ : ∃ first second rest, arguments = first :: second :: rest := by
    rcases arguments with _ | ⟨first, _ | ⟨second, rest⟩⟩
    · simp at h
    · simp at h
    · exact ⟨first, second, rest, rfl⟩
  rw [List.cons_append, List.cons_append, apply_eq, apply_eq, Action.bind_assoc]
  congr 1
  funext value
  exact resume_append evaluate (second :: rest) others combiner value

end Combiner

theorem Action.SequentialCongruence.resume {Rel : (α : Type) → Action α → Action α → Prop}
    (h : Action.SequentialCongruence Rel) {evaluate other : Expr → Action Value}
    {arguments : List Expr}
    (hevaluate : ∀ argument ∈ arguments, Rel Value (evaluate argument) (other argument))
    (combiner : Combiner) (value : Value) :
    Rel Value (combiner.resume evaluate value arguments)
      (combiner.resume other value arguments) := by
  cases combiner with
  | arithmetic operation =>
      exact h.bind (h.expectNumber _ value) fun x => h.foldNumbers hevaluate operation x
  | connective operation =>
      refine h.bind (h.expectBoolean _ value) fun b => ?_
      split
      · exact h.pure _
      · exact h.connect hevaluate operation
  | cat =>
      cases value with
      | list elements => exact h.joinLists hevaluate elements
      | string text => exact h.joinStrings hevaluate text
      | _ => exact h.fail trivial

/-! ## Expressions that do the same -/

/-- Evaluated in the context, the expression comes to the outcome, a value or an error, and leaves
the other context behind. -/
def Expr.EndsAs (expr : Expr) (context : Context) (outcome : Outcome Value) (after : Context) :
    Prop :=
  outcome ≠ .unfinished ∧ ∃ bound, evaluate bound expr context = (outcome, after)

/-- In every context both expressions come to the same outcome and leave the same memory, functions
and output behind, or neither comes to an end. -/
def Expr.Indistinguishable (expr other : Expr) : Prop :=
  ∀ context outcome after,
    expr.EndsAs context outcome after ↔ other.EndsAs context outcome after

namespace Expr

variable {expr other : Expr}

theorem Indistinguishable.refl (expr : Expr) : expr.Indistinguishable expr :=
  fun _ _ _ => Iff.rfl

theorem Indistinguishable.symm (h : expr.Indistinguishable other) :
    other.Indistinguishable expr :=
  fun context outcome after => (h context outcome after).symm

theorem Indistinguishable.trans {third : Expr} (h : expr.Indistinguishable other)
    (hnext : other.Indistinguishable third) : expr.Indistinguishable third :=
  fun context outcome after => (h context outcome after).trans (hnext context outcome after)

theorem EndsAs.of_le {context after : Context} {outcome : Outcome Value}
    (h : expr.EndsAs context outcome after) :
    ∃ bound, ∀ more, bound ≤ more → evaluate more expr context = (outcome, after) := by
  obtain ⟨hends, bound, hbound⟩ := h
  refine ⟨bound, fun more hle => ?_⟩
  rw [(settles_run hle).1 expr context (by rwa [hbound]), hbound]

/-- An expression comes to one outcome only. -/
theorem EndsAs.unique {context after last : Context} {outcome another : Outcome Value}
    (h : expr.EndsAs context outcome after)
    (hother : expr.EndsAs context another last) : another = outcome ∧ last = after := by
  obtain ⟨bound, hbound⟩ := h.of_le
  obtain ⟨enough, henough⟩ := hother.of_le
  have hsame := (henough _ (Nat.le_max_right bound enough)).symm.trans
    (hbound _ (Nat.le_max_left bound enough))
  exact Prod.mk.inj hsame

theorem EndsAs.of_settles
    (h : ∀ bound, ∃ more, (evaluate bound expr).Settles (evaluate more other))
    {context after : Context} {outcome : Outcome Value}
    (hexpr : expr.EndsAs context outcome after) : other.EndsAs context outcome after := by
  obtain ⟨hends, bound, hbound⟩ := hexpr
  obtain ⟨more, hmore⟩ := h bound
  exact ⟨hends, more, by rw [hmore context (by rwa [hbound]), hbound]⟩

end Expr

/-! ## Nested calls -/

theorem settles_resume {bound more : Nat} (hle : bound ≤ more) (combiner : Combiner)
    (value : Value) (arguments : List Expr) :
    (combiner.resume (evaluate bound) value arguments).Settles
      (combiner.resume (evaluate more) value arguments) :=
  Action.uniform_settles.resume (fun argument _ => (settles_run hle).1 argument) combiner value

section

variable {operator : Token} {combiner : Combiner}
  (hname : Builtin.named? operator.spelling = some combiner.builtin)

include hname

theorem evaluate_combiner (bound : Nat) (arguments : List Expr) :
    evaluate (bound + 1) (.call operator arguments) =
      combiner.builtin.apply (evaluate bound) arguments :=
  evaluate_builtin hname bound arguments

theorem evaluate_pair (bound : Nat) (first last : Expr) :
    evaluate (bound + 1) (.call operator [first, last]) =
      evaluate bound first >>= fun value => combiner.resume (evaluate bound) value [last] := by
  rw [evaluate_combiner hname, combiner.apply_eq]

theorem evaluate_concat {arguments : List Expr} (h : 2 ≤ arguments.length) (bound : Nat)
    (last : Expr) :
    evaluate (bound + 1) (.call operator (arguments ++ [last])) =
      evaluate (bound + 1) (.call operator arguments) >>= fun value =>
        combiner.resume (evaluate bound) value [last] := by
  rw [evaluate_combiner hname, evaluate_combiner hname, combiner.apply_append _ h]

theorem indistinguishable_nested {arguments : List Expr} (h : 2 ≤ arguments.length) (last : Expr) :
    (Expr.call operator (arguments ++ [last])).Indistinguishable
      (.call operator [.call operator arguments, last]) := by
  intro context outcome after
  constructor
  · apply Expr.EndsAs.of_settles
    rintro (_ | bound)
    · exact ⟨0, Action.settles_unfinished _⟩
    · refine ⟨bound + 2, ?_⟩
      rw [evaluate_concat hname h, evaluate_pair hname]
      refine .bind (.refl _) fun value => ?_
      exact settles_resume (Nat.le_succ bound) combiner value [last]
  · apply Expr.EndsAs.of_settles
    rintro (_ | bound)
    · exact ⟨0, Action.settles_unfinished _⟩
    · refine ⟨bound + 1, ?_⟩
      rw [evaluate_concat hname h, evaluate_pair hname]
      exact .bind ((settles_run (Nat.le_succ bound)).1 _) fun value => .refl _

theorem endsAs_pair {first other : Expr} (h : first.Indistinguishable other) (last : Expr)
    {context after : Context} {outcome : Outcome Value}
    (hends : (Expr.call operator [first, last]).EndsAs context outcome after) :
    (Expr.call operator [other, last]).EndsAs context outcome after := by
  obtain ⟨hfinished, _ | bound, hrun⟩ := hends
  · cases hrun
    exact absurd rfl hfinished
  · rw [evaluate_pair hname, Action.bind_eq] at hrun
    have hother : ∀ {result middle}, evaluate bound first context = (result, middle) →
        result ≠ .unfinished → ∃ more, bound ≤ more ∧
          evaluate more other context = (result, middle) := by
      intro result middle hfirst hresult
      obtain ⟨enough, henough⟩ := ((h context result middle).1 ⟨hresult, bound, hfirst⟩).of_le
      exact ⟨max bound enough, Nat.le_max_left .., henough _ (Nat.le_max_right ..)⟩
    refine ⟨hfinished, ?_⟩
    rcases hfirst : evaluate bound first context with ⟨value | error | _, middle⟩
    · obtain ⟨more, hle, hmore⟩ := hother hfirst nofun
      rw [hfirst] at hrun
      refine ⟨more + 1, ?_⟩
      rw [evaluate_pair hname, Action.bind_eq, hmore]
      have hresume := settles_resume hle combiner value [last] middle
      dsimp only at hrun ⊢
      rw [hresume (by rwa [hrun]), hrun]
    · obtain ⟨more, -, hmore⟩ := hother hfirst nofun
      rw [hfirst] at hrun
      refine ⟨more + 1, ?_⟩
      rw [evaluate_pair hname, Action.bind_eq, hmore]
      exact hrun
    · rw [hfirst] at hrun
      cases hrun
      exact absurd rfl hfinished

/-- The first argument of a call may be replaced by one that does the same. -/
theorem indistinguishable_pair {first other : Expr} (h : first.Indistinguishable other)
    (last : Expr) :
    (Expr.call operator [first, last]).Indistinguishable (.call operator [other, last]) :=
  fun _ _ _ => ⟨endsAs_pair hname h last, endsAs_pair hname h.symm last⟩

theorem indistinguishable_foldl (first second : Expr) (rest : List Expr) :
    (Expr.call operator (first :: second :: rest)).Indistinguishable
      (rest.foldl (fun inner argument => .call operator [inner, argument])
        (.call operator [first, second])) := by
  induction rest using List.reverseRecOn with
  | nil => exact .refl _
  | append_singleton rest last ih =>
      have hlength : 2 ≤ (first :: second :: rest).length := by simp
      rw [List.foldl_append]
      have hpair := indistinguishable_pair hname ih last
      exact (indistinguishable_nested hname hlength last).trans hpair

end

/-- A call of `+`, `*`, `/`, `cat`, `and` or `or` with three arguments or more does the same as a
call with two of them, the first of which is the call without the last argument. So it does the same
as calls with two arguments within each other, nested to the left. -/
theorem variadic_operators_are_iterated {operator : Token}
    (hoperator : operator.spelling ∈ ["+", "*", "/", "cat", "and", "or"]) :
    (∀ (arguments : List Expr) (last : Expr), 3 ≤ (arguments ++ [last]).length →
      (Expr.call operator (arguments ++ [last])).Indistinguishable
        (.call operator [.call operator arguments, last])) ∧
    ∀ (first second : Expr) (rest : List Expr),
      (Expr.call operator (first :: second :: rest)).Indistinguishable
        (rest.foldl (fun inner argument => .call operator [inner, argument])
          (.call operator [first, second])) := by
  obtain ⟨combiner, hname⟩ := Combiner.exists_of_spelling hoperator
  refine ⟨fun arguments last h => ?_, indistinguishable_foldl hname⟩
  rw [List.length_append, List.length_singleton] at h
  exact indistinguishable_nested hname (Nat.le_of_succ_le_succ h) last

/-- A function that prints its argument before it puts it in a list. -/
def announcing : FunctionDecl :=
  ⟨⟨"f"⟩, [⟨"x"⟩], [.print (.simple ⟨"x"⟩), .return (.list [.simple ⟨"x"⟩])]⟩

def announcingContext : Context where
  functions := ⟨[("f", announcing)]⟩

/-- Lists that are announced, with a string among them. -/
def announcedParts : List Expr :=
  [.call ⟨"f"⟩ [.simple ⟨"true"⟩], .call ⟨"f"⟩ [.simple ⟨"'a'"⟩], .simple ⟨"\"b\""⟩]

theorem announcedParts_iterated :
    let last : Expr := .call ⟨"f"⟩ [.simple ⟨"false"⟩]
    "cat" ∈ ["+", "*", "/", "cat", "and", "or"] ∧ 3 ≤ (announcedParts ++ [last]).length ∧
      ∃ after : Context, after.sink.text = "true\na\n" ∧
        (Expr.call ⟨"cat"⟩ (announcedParts ++ [last])).EndsAs announcingContext
          (.failed (.running (.typeMismatch "cat" "list" .string))) after ∧
        (Expr.call ⟨"cat"⟩ [.call ⟨"cat"⟩ announcedParts, last]).EndsAs announcingContext
          (.failed (.running (.typeMismatch "cat" "list" .string))) after := by
  intro last
  have hcat : (Token.mk "cat").spelling ∈ ["+", "*", "/", "cat", "and", "or"] := by decide
  have hlength : 3 ≤ (announcedParts ++ [last]).length := by decide
  have hprinted : (evaluate 9 (.call ⟨"cat"⟩ (announcedParts ++ [last]))
      announcingContext).2.sink.text = "true\na\n" := by decide +kernel
  have hfailed : (evaluate 9 (.call ⟨"cat"⟩ (announcedParts ++ [last])) announcingContext).1 =
      .failed (.running (.typeMismatch "cat" "list" .string)) := by decide +kernel
  rcases hrun : evaluate 9 (.call ⟨"cat"⟩ (announcedParts ++ [last])) announcingContext with
    ⟨outcome, after⟩
  rw [hrun] at hprinted hfailed
  obtain rfl : outcome = .failed (.running (.typeMismatch "cat" "list" .string)) := hfailed
  have hends : (Expr.call ⟨"cat"⟩ (announcedParts ++ [last])).EndsAs announcingContext
      (.failed (.running (.typeMismatch "cat" "list" .string))) after := ⟨nofun, 9, hrun⟩
  have hsame := (variadic_operators_are_iterated hcat).1 announcedParts last hlength
  exact ⟨hcat, hlength, after, hprinted, hends, (hsame announcingContext _ after).1 hends⟩

end TinyScript
