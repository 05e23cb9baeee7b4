import Mathlib.Tactic.MkIffOfInductiveProp
import TinyScript.Proofs.Program.Calls
import TinyScript.Proofs.Run.Failures

/-!
# Calls with the right number of arguments

A signature says for each name how many arguments the function of that name takes. If all functions
in reach keep to it, and every call has as many arguments as the signature or the operator asks for,
then no run comes to a call that is refused for their number (`conforming_calls_accepted`), whatever
functions are declared while it goes on. The check is exact: a call that does not pass it is refused
as soon as it is evaluated.
-/

namespace TinyScript

/-! ## Calls in a program -/

/-- What stands at the head of a call, and how many arguments stand behind it. -/
structure CallSite where
  head : Token
  count : Nat
deriving DecidableEq

mutual

def Expr.callSites : Expr → List CallSite
  | .simple _ => []
  | .list elements => Expr.callSitesAll elements
  | .call operator arguments => ⟨operator, arguments.length⟩ :: Expr.callSitesAll arguments

def Expr.callSitesAll : List Expr → List CallSite
  | [] => []
  | expr :: exprs => expr.callSites ++ Expr.callSitesAll exprs

end

mutual

/-- The calls in a statement, also those in the bodies of functions. -/
def Statement.callSites : Statement → List CallSite
  | .assign _ value => value.callSites
  | .block body => Statement.callSitesAll body
  | .ifElse condition thenBlock elseBlock =>
    condition.callSites ++ Statement.callSitesAll thenBlock ++ Statement.callSitesAll elseBlock
  | .while condition body => condition.callSites ++ Statement.callSitesAll body
  | .repeat count body => count.callSites ++ Statement.callSitesAll body
  | .func _ _ body => Statement.callSitesAll body
  | .return value => value.callSites
  | .print value => value.callSites

def Statement.callSitesAll : List Statement → List CallSite
  | [] => []
  | statement :: statements => statement.callSites ++ Statement.callSitesAll statements

end

theorem Expr.callSites_of_part {expr part : Expr} (h : part ∈ expr.parts) :
    part.callSites ⊆ expr.callSites := by
  have hall : part.callSites ⊆ callSitesAll expr.parts := collected_subset rfl (fun _ _ => rfl) h
  cases expr with
  | simple token => cases h
  | list elements => exact hall
  | call operator arguments => exact List.subset_cons_of_subset _ hall

namespace Statement

variable {statement member : Statement} {body : Block}

theorem callSites_of_mem (h : member ∈ body) : member.callSites ⊆ callSitesAll body :=
  collected_subset rfl (fun _ _ => rfl) h

theorem callSites_of_expr {expr : Expr} (h : expr ∈ statement.exprs) :
    expr.callSites ⊆ statement.callSites := by
  refine subset_of_flatMap ?_ h
  cases statement <;> simp [exprs, callSites]

theorem callSites_of_block (h : body ∈ statement.blocks) :
    callSitesAll body ⊆ statement.callSites := by
  refine subset_of_flatMap ?_ h
  cases statement <;> simp [blocks, callSites]

end Statement

/-! ## Signatures -/

/-- The head of the call takes that many arguments. Nothing is asked of a head that is neither an
operator nor an identifier: what is at fault there is not the number of arguments. -/
@[mk_iff]
structure CallSite.Accepted (signature : String → Nat) (site : CallSite) : Prop where
  one : site.head.spelling ∈ ["not", "len", "str"] → site.count = 1
  two : site.head.spelling = "get" → site.count = 2
  atLeastTwo : site.head.spelling ∈ ["+", "*", "/", "and", "or", "cat"] → 2 ≤ site.count
  atLeastOne : site.head.spelling ∈ ["<", "<=", ">", ">=", "==", "!="] → 1 ≤ site.count
  function : site.head.kind = .identifier → site.count = signature site.head.spelling

/-- All declarations of functions in the statement have as many parameters as the signature says,
and all calls in it an accepted number of arguments. -/
@[mk_iff]
structure Statement.Conforms (signature : String → Nat) (statement : Statement) : Prop where
  declared : ∀ decl ∈ statement.functions, decl.parameters.length = signature decl.name.spelling
  called : ∀ site ∈ statement.callSites, site.Accepted signature

/-- Under that name the function has as many parameters as the signature says, and its body conforms
to the signature as well. -/
@[mk_iff]
structure FunctionDecl.Conforms (signature : String → Nat) (name : String) (decl : FunctionDecl) :
    Prop where
  parameters : decl.parameters.length = signature name
  body : ∀ statement ∈ decl.body, statement.Conforms signature

variable {signature : String → Nat}

instance (site : CallSite) : Decidable (site.Accepted signature) :=
  decidable_of_iff' _ (CallSite.accepted_iff signature site)

instance (statement : Statement) : Decidable (statement.Conforms signature) :=
  decidable_of_iff' _ (Statement.conforms_iff signature statement)

instance (name : String) (decl : FunctionDecl) : Decidable (decl.Conforms signature name) :=
  decidable_of_iff' _ (FunctionDecl.conforms_iff signature name decl)

/-- Which operators have which arity. -/
theorem Builtin.arity_iff : ∀ builtin ∈ all,
    (builtin.arity = .exactly 1 ↔ builtin.spelling ∈ ["not", "len", "str"]) ∧
      (builtin.arity = .exactly 2 ↔ builtin.spelling = "get") ∧
      (builtin.arity = .atLeast 2 ↔
        builtin.spelling ∈ ["+", "*", "/", "and", "or", "cat"]) ∧
      (builtin.arity = .atLeast 1 ↔
        builtin.spelling ∈ ["<", "<=", ">", ">=", "==", "!="]) := by
  decide +kernel

theorem Builtin.arity_cases (builtin : Builtin) :
    builtin.arity = .exactly 1 ∨ builtin.arity = .exactly 2 ∨ builtin.arity = .atLeast 2 ∨
      builtin.arity = .atLeast 1 := by
  cases builtin <;> simp [arity]

/-- For an operator, to be accepted is to have a number of arguments that its arity accepts. -/
theorem CallSite.accepted_operator_iff {operator : Token} {builtin : Builtin} {count : Nat}
    (h : Builtin.named? operator.spelling = some builtin) :
    (CallSite.mk operator count).Accepted signature ↔ builtin.arity.accepts count = true := by
  have hspelling := Builtin.spelling_of_named? h
  have hkind : operator.kind ≠ .identifier := by
    rw [Token.kind, ← hspelling]
    exact builtin.classify_spelling
  obtain ⟨hone, htwo, hatLeastTwo, hatLeastOne⟩ := Builtin.arity_iff builtin builtin.mem_all
  rw [hspelling] at hone htwo hatLeastTwo hatLeastOne
  constructor
  · intro haccepted
    obtain harity | harity | harity | harity := builtin.arity_cases
    · simpa [harity, Arity.accepts] using haccepted.one (hone.1 harity)
    · simpa [harity, Arity.accepts] using haccepted.two (htwo.1 harity)
    · simpa [harity, Arity.accepts] using haccepted.atLeastTwo (hatLeastTwo.1 harity)
    · simpa [harity, Arity.accepts] using haccepted.atLeastOne (hatLeastOne.1 harity)
  · intro haccepts
    refine ⟨?_, ?_, ?_, ?_, fun hname => absurd hname hkind⟩
    · intro hmem
      simpa [hone.2 hmem, Arity.accepts] using haccepts
    · intro hmem
      simpa [htwo.2 hmem, Arity.accepts] using haccepts
    · intro hmem
      simpa [hatLeastTwo.2 hmem, Arity.accepts] using haccepts
    · intro hmem
      simpa [hatLeastOne.2 hmem, Arity.accepts] using haccepts

/-- For an identifier, it is to have the number of arguments that the signature gives it. -/
theorem CallSite.accepted_identifier_iff {operator : Token} {count : Nat}
    (h : operator.kind = .identifier) :
    (CallSite.mk operator count).Accepted signature ↔ count = signature operator.spelling := by
  have hone : ∀ word ∈ ["not", "len", "str"], TokenKind.classify word ≠ .identifier := by
    decide +kernel
  have htwo : ∀ word, word = "get" → TokenKind.classify word ≠ .identifier := by
    rintro word rfl
    decide +kernel
  have hatLeastTwo : ∀ word ∈ ["+", "*", "/", "and", "or", "cat"],
      TokenKind.classify word ≠ .identifier := by
    decide +kernel
  have hatLeastOne : ∀ word ∈ ["<", "<=", ">", ">=", "==", "!="],
      TokenKind.classify word ≠ .identifier := by
    decide +kernel
  refine ⟨fun haccepted => haccepted.function h, fun hcount => ⟨?_, ?_, ?_, ?_, fun _ => hcount⟩⟩
  · exact fun hmem => absurd h (hone _ hmem)
  · exact fun hget => absurd h (htwo _ hget)
  · exact fun hmem => absurd h (hatLeastTwo _ hmem)
  · exact fun hmem => absurd h (hatLeastOne _ hmem)

/-! ## Parts of what conforms -/

namespace Statement.Conforms

variable {statement member : Statement}

theorem of_expr (h : statement.Conforms signature) {expr : Expr} (hexpr : expr ∈ statement.exprs) :
    ∀ site ∈ expr.callSites, site.Accepted signature :=
  fun site hsite => h.called site (callSites_of_expr hexpr hsite)

theorem of_member (h : statement.Conforms signature) {body : Block}
    (hbody : body ∈ statement.blocks) (hmember : member ∈ body) : member.Conforms signature where
  declared decl hdecl := h.declared decl (functions_of_block hbody (functions_of_mem hmember hdecl))
  called site hsite := h.called site (callSites_of_block hbody (callSites_of_mem hmember hsite))

/-- A declaration that conforms declares a function that conforms. -/
theorem function {decl : FunctionDecl} (h : decl.toStatement.Conforms signature) :
    decl.Conforms signature decl.name.spelling where
  parameters := h.declared decl (List.mem_cons_self ..)
  body _ hmember :=
    { declared := fun inner hinner =>
        h.declared inner (List.mem_cons_of_mem _ (functions_of_mem hmember hinner))
      called := fun site hsite => h.called site (callSites_of_mem hmember hsite) }

end Statement.Conforms

/-! ## Runs -/

/-- Only what conforms to the signature is run, and no wrong number of arguments is expected. -/
def Discipline.conforming (signature : String → Nat) : Discipline where
  evaluates expr := ∀ site ∈ expr.callSites, site.Accepted signature
  executes statement := statement.Conforms signature
  knows name decl := decl.Conforms signature name
  expects error := ∀ operator expected found,
    error ≠ .running (.incorrectArity operator expected found)
  evaluates_part hexpr hpart := fun site hsite => hexpr site (Expr.callSites_of_part hpart hsite)
  evaluates_expr hstatement hexpr := hstatement.of_expr hexpr
  executes_member hstatement := hstatement.of_member
  executes_body hdecl := hdecl.body _
  knows_declared := Statement.Conforms.function
  expects_other hother := by
    rintro operator expected found ⟨⟩
    exact hother trivial
  expects_sinkFull := by
    rintro operator expected found ⟨⟩
  expects_caused {expr error} hexpr hcause := by
    rintro operator expected found ⟨⟩
    cases expr with
    | simple token => cases hcause.2.2
    | list elements => cases hcause
    | call head arguments =>
        cases hnamed : Builtin.named? head.spelling with
        | none =>
            rw [Expr.Causes, hnamed] at hcause
            cases hcause.2
        | some builtin =>
            rw [Expr.Causes, hnamed] at hcause
            have haccepts := (CallSite.accepted_operator_iff hnamed).1
              (hexpr ⟨head, arguments.length⟩ (List.mem_cons_self ..))
            cases haccepts.symm.trans hcause.1
  expects_undeclared _ _ := by
    rintro operator expected found ⟨⟩
  expects_arity {operator arguments decl} hexpr hkind hdecl hwrong := by
    have haccepted := hexpr ⟨operator, arguments.length⟩ (List.mem_cons_self ..)
    rw [CallSite.accepted_identifier_iff hkind, ← hdecl.parameters] at haccepted
    exact absurd haccepted.symm hwrong

theorem Builtin.apply_of_refused {builtin : Builtin} {arguments : List Expr}
    (h : builtin.arity.accepts arguments.length = false) (evaluate : Expr → Action Value) :
    builtin.apply evaluate arguments = .failRunning (builtin.wrongArity arguments) := by
  unfold apply
  split
  all_goals first | rfl | simp [arity, Arity.accepts] at h

/-- A call of an operator or of a registered function that is not accepted is refused before any
argument is evaluated, so the signature asks for no more than it has to. -/
theorem refused_of_not_accepted {operator : Token} {arguments : List Expr} {context : Context}
    (hfunctions : ∀ name decl, context.functions.find? name = some decl →
      decl.Conforms signature name)
    (hknown : (Builtin.named? operator.spelling).isSome = true ∨
      operator.kind = .identifier ∧ context.functions.contains operator.spelling = true)
    (h : ¬ (CallSite.mk operator arguments.length).Accepted signature) (bound : Nat) :
    ∃ expected, evaluate (bound + 1) (.call operator arguments) context =
      (.failed (.running (.incorrectArity operator.spelling expected arguments.length)),
        context) := by
  rw [evaluate_succ_eq, evaluateStep]
  cases hnamed : Builtin.named? operator.spelling with
  | some builtin =>
      rw [CallSite.accepted_operator_iff hnamed, Bool.not_eq_true] at h
      dsimp only
      rw [Builtin.apply_of_refused h, Builtin.wrongArity, Builtin.spelling_of_named? hnamed]
      exact ⟨builtin.arity.words, rfl⟩
  | none =>
      rw [hnamed] at hknown
      obtain hsome | ⟨hkind, hregistered⟩ := hknown
      · cases hsome
      obtain ⟨decl, hfind⟩ := Option.isSome_iff_exists.1 hregistered
      rw [CallSite.accepted_identifier_iff hkind,
        ← (hfunctions _ decl hfind).parameters] at h
      dsimp only
      rw [if_pos hkind, callFunction_eq, hfind, callFound, if_neg (Ne.symm h)]
      exact ⟨toString decl.parameters.length, rfl⟩

/-- If all registered functions conform to the signature, a statement that conforms to it never
fails because of a number of arguments, within any bound. A call that is not accepted does fail for
that reason, wherever it is evaluated. -/
theorem conforming_calls_accepted (signature : String → Nat) (context : Context)
    (hfunctions : ∀ name decl, context.functions.find? name = some decl →
      decl.Conforms signature name) :
    (∀ statement : Statement, statement.Conforms signature →
      ∀ bound operator expected found, (execute bound statement context).1 ≠
        .failed (.running (.incorrectArity operator expected found))) ∧
    ∀ (operator : Token) (arguments : List Expr),
      (Builtin.named? operator.spelling).isSome = true ∨
        operator.kind = .identifier ∧ context.functions.contains operator.spelling = true →
      ¬ (CallSite.mk operator arguments.length).Accepted signature →
      ∀ bound, ∃ expected, evaluate (bound + 1) (.call operator arguments) context =
        (.failed (.running (.incorrectArity operator.spelling expected arguments.length)),
          context) := by
  refine ⟨?_, fun _ _ hknown hwrong => refused_of_not_accepted hfunctions hknown hwrong⟩
  intro statement hstatement bound operator expected found hfailed
  have hobeys := ((Discipline.conforming signature).obeys bound).2 statement hstatement
  exact (hobeys context hfunctions).1 _ hfailed operator expected found rfl

/-- A function that declares another one when it is called. -/
def measuring : FunctionDecl :=
  ⟨⟨"measure"⟩, [⟨"items"⟩, ⟨"base"⟩], [
    .func ⟨"total"⟩ [⟨"x"⟩, ⟨"y"⟩, ⟨"z"⟩]
      [.return (.call ⟨"+"⟩ [.simple ⟨"x"⟩, .simple ⟨"y"⟩, .simple ⟨"z"⟩])],
    .return (.call ⟨"total"⟩ [.call ⟨"len"⟩ [.simple ⟨"items"⟩], .simple ⟨"base"⟩, .simple ⟨"1"⟩])]⟩

def measuringContext : Context where
  functions := ⟨[("measure", measuring)]⟩

def measuringSignature (name : String) : Nat :=
  if name = "measure" then 2 else 3

/-- Calls both functions, the one that is there and the one that its call declares. -/
def measurement : Statement :=
  .block [
    .print (.call ⟨"measure"⟩ [.list [.simple ⟨"true"⟩, .simple ⟨"1"⟩], .simple ⟨"1"⟩]),
    .print (.call ⟨"total"⟩ [.simple ⟨"3"⟩, .simple ⟨"4"⟩, .simple ⟨"5"⟩])]

theorem conforming_measurement_accepted :
    measurement.Conforms measuringSignature ∧
      measuring.Conforms measuringSignature "measure" ∧
      (∀ bound operator expected found, (execute bound measurement measuringContext).1 ≠
        .failed (.running (.incorrectArity operator expected found))) ∧
      (execute 9 measurement measuringContext).2.sink.text = "4\n12\n" ∧
      ∀ bound, ∃ expected,
        evaluate (bound + 1) (.call ⟨"measure"⟩ [.simple ⟨"1"⟩]) measuringContext =
          (.failed (.running (.incorrectArity "measure" expected 1)), measuringContext) := by
  have hstatement : measurement.Conforms measuringSignature := by decide +kernel
  have hmeasuring : measuring.Conforms measuringSignature "measure" := by decide +kernel
  have hfunctions : ∀ name decl, measuringContext.functions.find? name = some decl →
      decl.Conforms measuringSignature name := by
    intro name decl hfind
    obtain ⟨rfl, rfl⟩ : name = "measure" ∧ decl = measuring := by
      simpa [measuringContext] using NameTable.mem_of_find? hfind
    exact hmeasuring
  obtain ⟨haccepted, hrefused⟩ :=
    conforming_calls_accepted measuringSignature measuringContext hfunctions
  exact ⟨hstatement, hmeasuring, haccepted measurement hstatement, by decide +kernel,
    hrefused ⟨"measure"⟩ [.simple ⟨"1"⟩] (.inr (by decide +kernel)) (by decide +kernel)⟩

end TinyScript
