import TinyScript.Proofs.Program.Names
import TinyScript.Proofs.Run.Equations

/-!
# Relations that running respects

A property of what actions do is proved for the parts of a program and carried over to the whole.
What most constructs contribute is the same for every property: they only put actions one behind
the other. So it is proved here once, for any relation between actions that respects this
(`Action.SequentialCongruence`, and `Action.Congruence` for loops without a count), and what remains
to a particular relation is the handful of actions that look at the context, and the errors that are
about names or about the way a program is written. Nothing of that remains to a relation between
runs that start in one context, if scopes respect it too (`Action.Uniform`). Two runs from different
contexts may go side by side (`Action.Simulates`).
-/

namespace TinyScript

/-- The error is about the values that an operator or a statement gets. -/
def RuntimeError.IsAboutValues : RuntimeError → Prop
  | .typeMismatch .. | .comparisonMismatch .. | .conditionNotBoolean .. | .invalidRepeatCount ..
  | .nonIntegerIndex .. | .indexOutOfBounds .. => True
  | _ => False

theorem Value.isAboutValues_of_compare {u v : Value} {error : RuntimeError}
    (h : u.compare v = .error error) : error.IsAboutValues := by
  unfold compare at h
  split at h <;> cases h
  trivial

theorem Builtin.isAboutValues_of_placeOf {length : Nat} {index : Number} {error : RuntimeError}
    (h : placeOf length index = .error error) : error.IsAboutValues := by
  unfold placeOf at h
  split at h
  · cases h
    trivial
  · split at h
    · cases h
      trivial
    · cases h

/-- The error that refuses a call of an operator for the number of its arguments. -/
def Builtin.wrongArity (builtin : Builtin) (arguments : List Expr) : RuntimeError :=
  .incorrectArity builtin.spelling builtin.arity.words arguments.length

/-- The errors that an expression causes by its own words, whatever the values of its parts are. -/
def Expr.Causes (error : RuntimeError) : Expr → Prop
  | .simple token => token.kind ≠ .identifier ∧ Value.ofLiteral? token = none ∧
      error = .unknownExpression token.spelling
  | .list _ => False
  | .call operator arguments =>
    match Builtin.named? operator.spelling with
    | some builtin => builtin.arity.accepts arguments.length = false ∧
        error = builtin.wrongArity arguments
    | none => operator.kind ≠ .identifier ∧ error = .undeclaredFunction operator.spelling

/-- A relation between actions that carries over from parts to what is sequenced from them. -/
structure Action.SequentialCongruence (Rel : (α : Type) → Action α → Action α → Prop) : Prop where
  pure {α : Type} (result : α) : Rel α (pure result) (pure result)
  fail {α : Type} {error : RuntimeError} (herror : error.IsAboutValues) :
    Rel α (Action.failRunning error) (Action.failRunning error)
  bind {α β : Type} {action other : Action α} {next continued : α → Action β}
    (haction : Rel α action other) (hnext : ∀ result, Rel β (next result) (continued result)) :
    Rel β (action >>= next) (other >>= continued)

/-- A relation between actions that carries over from parts to the whole, whether or not the bound
suffices. -/
structure Action.Congruence (Rel : (α : Type) → Action α → Action α → Prop) : Prop
    extends Action.SequentialCongruence Rel where
  unfinished {α : Type} : Rel α Action.unfinished Action.unfinished

namespace Action.SequentialCongruence

variable {Rel : (α : Type) → Action α → Action α → Prop} (h : Action.SequentialCongruence Rel)

include h

/-! ## Expected kinds -/

theorem compare (u v : Value) :
    Rel Ordering (Action.ofExcept (u.compare v)) (Action.ofExcept (u.compare v)) := by
  cases hcompare : u.compare v with
  | ok order => exact h.pure order
  | error error => exact h.fail (Value.isAboutValues_of_compare hcompare)

theorem expectNumber (operator : String) (value : Value) :
    Rel Number (Builtin.expectNumber operator value) (Builtin.expectNumber operator value) := by
  cases value with
  | number x => exact h.pure x
  | _ => exact h.fail trivial

theorem expectBoolean (operator : String) (value : Value) :
    Rel Bool (Builtin.expectBoolean operator value) (Builtin.expectBoolean operator value) := by
  cases value with
  | boolean b => exact h.pure b
  | _ => exact h.fail trivial

theorem expectSequence (operator : String) (value : Value) :
    Rel (List Value) (Builtin.expectSequence operator value)
      (Builtin.expectSequence operator value) := by
  cases value with
  | list elements => exact h.pure elements
  | string text => exact h.pure _
  | _ => exact h.fail trivial

theorem elementAt (elements : List Value) (index : Number) :
    Rel Value (Builtin.elementAt elements index) (Builtin.elementAt elements index) := by
  unfold Builtin.elementAt
  split
  · exact h.pure _
  · next hplace => exact h.fail (Builtin.isAboutValues_of_placeOf hplace)

/-! ## Arguments -/

section

variable {evaluate other : Expr → Action Value} {arguments : List Expr}
  (hevaluate : ∀ argument ∈ arguments, Rel Value (evaluate argument) (other argument))

include hevaluate

theorem evaluateAll :
    Rel (List Value) (evaluateAll evaluate arguments) (TinyScript.evaluateAll other arguments) := by
  induction arguments with
  | nil => exact h.pure _
  | cons argument arguments ih =>
      refine h.bind (hevaluate argument (by simp)) fun value => ?_
      refine h.bind (ih fun next hnext => hevaluate next (by simp [hnext])) fun values => ?_
      exact h.pure _

theorem foldNumbers (operation : Arithmetic) (x : Number) :
    Rel Value (Builtin.foldNumbers evaluate operation x arguments)
      (Builtin.foldNumbers other operation x arguments) := by
  induction arguments generalizing x with
  | nil => exact h.pure _
  | cons argument arguments ih =>
      refine h.bind (hevaluate argument (by simp)) fun value => ?_
      refine h.bind (h.expectNumber _ value) fun y => ?_
      exact ih (fun next hnext => hevaluate next (by simp [hnext])) _

theorem connect (operation : Connective) :
    Rel Value (Builtin.connect evaluate operation arguments)
      (Builtin.connect other operation arguments) := by
  induction arguments with
  | nil => exact h.pure _
  | cons argument arguments ih =>
      refine h.bind (hevaluate argument (by simp)) fun value => ?_
      refine h.bind (h.expectBoolean _ value) fun b => ?_
      split
      · exact h.pure _
      · exact ih fun next hnext => hevaluate next (by simp [hnext])

theorem compareNeighbours (operation : Relation) :
    Rel Value (Builtin.compareNeighbours evaluate operation arguments)
      (Builtin.compareNeighbours other operation arguments) := by
  induction arguments with
  | nil => exact h.pure _
  | cons first arguments ih =>
      cases arguments with
      | nil => exact h.pure _
      | cons second arguments =>
          refine h.bind (hevaluate first (by simp)) fun u => ?_
          refine h.bind (hevaluate second (by simp)) fun v => ?_
          refine h.bind (h.compare u v) fun order => ?_
          split
          · exact ih fun next hnext => hevaluate next (List.mem_cons_of_mem _ hnext)
          · exact h.pure _

theorem joinLists (elements : List Value) :
    Rel Value (Builtin.joinLists evaluate elements arguments)
      (Builtin.joinLists other elements arguments) := by
  induction arguments generalizing elements with
  | nil => exact h.pure _
  | cons argument arguments ih =>
      refine h.bind (hevaluate argument (by simp)) fun value => ?_
      cases value with
      | list more => exact ih (fun next hnext => hevaluate next (by simp [hnext])) _
      | _ => exact h.fail trivial

theorem joinStrings (text : String) :
    Rel Value (Builtin.joinStrings evaluate text arguments)
      (Builtin.joinStrings other text arguments) := by
  induction arguments generalizing text with
  | nil => exact h.pure _
  | cons argument arguments ih =>
      refine h.bind (hevaluate argument (by simp)) fun value => ?_
      cases value with
      | string more => exact ih (fun next hnext => hevaluate next (by simp [hnext])) _
      | _ => exact h.fail trivial

theorem apply {builtin : Builtin}
    (harity : builtin.arity.accepts arguments.length = false →
      Rel Value (Action.failRunning (builtin.wrongArity arguments))
        (Action.failRunning (builtin.wrongArity arguments))) :
    Rel Value (builtin.apply evaluate arguments) (builtin.apply other arguments) := by
  unfold Builtin.apply
  split
  · next first second rest =>
      refine h.bind (hevaluate first (by simp)) fun value => ?_
      refine h.bind (h.expectNumber _ value) fun x => ?_
      exact h.foldNumbers (fun next hnext => hevaluate next (List.mem_cons_of_mem _ hnext)) _ x
  · next argument =>
      refine h.bind (hevaluate argument (by simp)) fun value => ?_
      exact h.bind (h.expectBoolean _ value) fun b => h.pure _
  · exact h.connect hevaluate _
  · exact h.compareNeighbours hevaluate _
  · next argument =>
      refine h.bind (hevaluate argument (by simp)) fun value => ?_
      exact h.bind (h.expectSequence _ value) fun elements => h.pure _
  · next sequence index =>
      refine h.bind (hevaluate sequence (by simp)) fun value => ?_
      refine h.bind (h.expectSequence _ value) fun elements => ?_
      refine h.bind (hevaluate index (by simp)) fun place => ?_
      exact h.bind (h.expectNumber _ place) fun x => h.elementAt elements x
  · next first second rest =>
      refine h.bind (hevaluate first (by simp)) fun value => ?_
      have hrest : ∀ argument ∈ second :: rest, Rel Value (evaluate argument) (other argument) :=
        fun next hnext => hevaluate next (List.mem_cons_of_mem _ hnext)
      cases value with
      | list elements => exact h.joinLists hrest _
      | string text => exact h.joinStrings hrest _
      | _ => exact h.fail trivial
  · next argument => exact h.bind (hevaluate argument (by simp)) fun value => h.pure _
  · apply harity
    -- No other number of arguments is accepted by any operator.
    rcases arguments with _ | ⟨first, _ | ⟨second, _ | ⟨third, rest⟩⟩⟩ <;> cases builtin <;>
      grind [Builtin.arity, Arity.accepts]

end

/-! ## Control flow -/

theorem evaluateCondition {evaluate other : Expr → Action Value} (construct : String)
    {condition another : Expr} (hcondition : Rel Value (evaluate condition) (other another)) :
    Rel Bool (evaluateCondition evaluate construct condition)
      (TinyScript.evaluateCondition other construct another) := by
  refine h.bind hcondition fun value => ?_
  cases value with
  | boolean b => exact h.pure b
  | _ => exact h.fail trivial

theorem repeatRounds (value : Value) :
    Rel Nat (repeatRounds value) (TinyScript.repeatRounds value) := by
  cases value with
  | number x =>
      unfold TinyScript.repeatRounds
      dsimp only
      split
      · exact h.pure _
      · exact h.fail trivial
  | _ => exact h.fail trivial

theorem andThen {first other next continued : Action Flow} (hfirst : Rel Flow first other)
    (hnext : Rel Flow next continued) :
    Rel Flow (Flow.andThen first next) (Flow.andThen other continued) := by
  refine h.bind hfirst fun flow => ?_
  cases flow with
  | completed => exact hnext
  | returning value => exact h.pure _

theorem executeAll {execute other : Statement → Action Flow} {statements : List Statement}
    (hexecute : ∀ statement ∈ statements, Rel Flow (execute statement) (other statement)) :
    Rel Flow (executeAll execute statements) (TinyScript.executeAll other statements) := by
  induction statements with
  | nil => exact h.pure _
  | cons statement statements ih =>
      apply h.andThen (hexecute statement (by simp))
      exact ih fun next hnext => hexecute next (by simp [hnext])

theorem times {body other : Action Flow} (hbody : Rel Flow body other) (rounds : Nat) :
    Rel Flow (Flow.times body rounds) (Flow.times other rounds) := by
  induction rounds with
  | zero => exact h.pure _
  | succ rounds ih =>
      rw [Flow.times_succ, Flow.times_succ]
      exact h.andThen hbody ih

/-! ## Calls and stores -/

theorem printLine (hwrite : ∀ piece, Rel Unit (Action.write piece) (Action.write piece))
    (text : String) : Rel Unit (Action.printLine text) (Action.printLine text) :=
  h.bind (hwrite text) fun _ => hwrite "\n"

theorem bindParameters
    (hdeclare : ∀ name, Rel Unit (Action.declare name) (Action.declare name))
    (hstore : ∀ name value, Rel Unit (Action.store name value) (Action.store name value))
    (parameters : List Token) (values : List Value) :
    Rel Unit (bindParameters parameters values) (TinyScript.bindParameters parameters values) := by
  induction parameters generalizing values with
  | nil => exact h.pure ()
  | cons parameter parameters ih =>
      cases values with
      | nil => exact h.pure ()
      | cons value values =>
          refine h.bind (hdeclare parameter.spelling) fun _ => ?_
          exact h.bind (hstore parameter.spelling value) fun _ => ih values

theorem runBody {execute other : Statement → Action Flow} {decl another : FunctionDecl}
    {arguments : List Value}
    (hbind : Rel Unit (TinyScript.bindParameters decl.parameters arguments)
      (TinyScript.bindParameters another.parameters arguments))
    (hbody : Rel Flow (executeBlock execute decl.body) (executeBlock other another.body)) :
    Rel Value (runBody execute decl arguments) (TinyScript.runBody other another arguments) := by
  refine h.bind hbind fun _ => ?_
  refine h.bind hbody fun flow => ?_
  cases flow with
  | completed => exact h.pure _
  | returning value => exact h.pure _

theorem storeValue {evaluate other : Expr → Action Value} {name : String} {expr : Expr}
    (hevaluate : Rel Value (evaluate expr) (other expr))
    (hstore : ∀ value, Rel Unit (Action.store name value) (Action.store name value)) :
    Rel Flow (storeValue evaluate name expr) (TinyScript.storeValue other name expr) := by
  refine h.bind hevaluate fun value => ?_
  exact h.bind (hstore value) fun _ => h.pure _

/-! ## Expressions and statements -/

section

variable {evaluate other : Expr → Action Value} {execute continued : Statement → Action Flow}

theorem evaluateSimple {token : Token}
    (hlookup : token.kind = .identifier →
      Rel Value (Action.lookup token.spelling) (Action.lookup token.spelling))
    (hcause : ∀ error, (Expr.simple token).Causes error →
      Rel Value (Action.failRunning error) (Action.failRunning error)) :
    Rel Value (evaluateSimple token) (TinyScript.evaluateSimple token) := by
  unfold TinyScript.evaluateSimple
  split
  · next hkind => exact hlookup hkind
  · next hkind =>
      split
      · exact h.pure _
      · next hliteral => exact hcause _ ⟨hkind, hliteral, rfl⟩

theorem evaluateStep {expr : Expr}
    (hlookup : ∀ token, expr = .simple token → token.kind = .identifier →
      Rel Value (Action.lookup token.spelling) (Action.lookup token.spelling))
    (hparts : ∀ part ∈ expr.parts, Rel Value (evaluate part) (other part))
    (hcall : ∀ operator arguments, expr = .call operator arguments →
      operator.kind = .identifier →
      Rel Value (callFunction evaluate execute operator.spelling arguments)
        (callFunction other continued operator.spelling arguments))
    (hcause : ∀ error, expr.Causes error →
      Rel Value (Action.failRunning error) (Action.failRunning error)) :
    Rel Value (evaluateStep evaluate execute expr)
      (TinyScript.evaluateStep other continued expr) := by
  cases expr with
  | simple token => exact h.evaluateSimple (hlookup token rfl) hcause
  | list elements => exact h.bind (h.evaluateAll hparts) fun values => h.pure _
  | call operator arguments =>
      cases hnamed : Builtin.named? operator.spelling with
      | some builtin =>
          simp only [TinyScript.evaluateStep, hnamed]
          apply h.apply hparts
          intro haccepts
          apply hcause
          rw [Expr.Causes, hnamed]
          exact ⟨haccepts, rfl⟩
      | none =>
          simp only [TinyScript.evaluateStep, hnamed]
          split
          · next hkind => exact hcall operator arguments rfl hkind
          · next hkind =>
              apply hcause
              rw [Expr.Causes, hnamed]
              exact ⟨hkind, rfl⟩

/-- The rounds of loops without a count are left to an assumption of their own. -/
theorem executeStep {statement : Statement} {print otherPrint : String → Action Unit}
    {rounds otherRounds : Nat} (hprint : ∀ text, Rel Unit (print text) (otherPrint text))
    (hexprs : ∀ expr ∈ statement.exprs, Rel Value (evaluate expr) (other expr))
    (hblocks : ∀ body ∈ statement.blocks,
      Rel Flow (executeBlock execute body) (executeBlock continued body))
    (hassign : ∀ target value, statement = .assign target value →
      Rel Flow (assign evaluate target.spelling value) (assign other target.spelling value))
    (hfunc : ∀ decl : FunctionDecl, statement = decl.toStatement →
      Rel Flow (declareFunction decl) (declareFunction decl))
    (hwhile : ∀ condition body, statement = .while condition body →
      Rel Flow (Flow.whileTrue (TinyScript.evaluateCondition evaluate "while" condition)
          (executeBlock execute body) rounds)
        (Flow.whileTrue (TinyScript.evaluateCondition other "while" condition)
          (executeBlock continued body) otherRounds)) :
    Rel Flow (executeStep print evaluate execute rounds statement)
      (TinyScript.executeStep otherPrint other continued otherRounds statement) := by
  cases statement with
  | assign target value => exact hassign target value rfl
  | block body => exact hblocks body (by simp [Statement.blocks])
  | ifElse condition thenBlock elseBlock =>
      have hcondition := hexprs condition (by simp [Statement.exprs])
      refine h.bind (h.evaluateCondition "if" hcondition) fun holds => ?_
      cases holds with
      | true => exact hblocks thenBlock (by simp [Statement.blocks])
      | false => exact hblocks elseBlock (by simp [Statement.blocks])
  | «while» condition body => exact hwhile condition body rfl
  | «repeat» count body =>
      have hbody := hblocks body (by simp [Statement.blocks])
      refine h.bind (hexprs count (by simp [Statement.exprs])) fun value => ?_
      exact h.bind (h.repeatRounds value) fun rounds => h.times hbody rounds
  | func name parameters body => exact hfunc ⟨name, parameters, body⟩ rfl
  | «return» value => exact h.bind (hexprs value (by simp [Statement.exprs])) fun _ => h.pure _
  | print value =>
      refine h.bind (hexprs value (by simp [Statement.exprs])) fun result => ?_
      exact h.bind (hprint _) fun _ => h.pure _

end

end Action.SequentialCongruence

theorem Action.Congruence.whileTrue {Rel : (α : Type) → Action α → Action α → Prop}
    (h : Action.Congruence Rel) {condition another : Action Bool} {body other : Action Flow}
    (hcondition : Rel Bool condition another) (hbody : Rel Flow body other) (rounds : Nat) :
    Rel Flow (Flow.whileTrue condition body rounds) (Flow.whileTrue another other rounds) := by
  induction rounds with
  | zero => exact h.unfinished
  | succ rounds ih =>
      rw [Flow.whileTrue_succ, Flow.whileTrue_succ]
      refine h.bind hcondition fun holds => ?_
      cases holds with
      | true => exact h.andThen hbody ih
      | false => exact h.pure _

/-! ## Two runs from one memory -/

namespace Action

/-- A relation between actions that start in the same memory with the same functions, which both may
look at. -/
structure Uniform (Rel : (α : Type) → Action α → Action α → Prop) : Prop
    extends Congruence Rel where
  failRunning {α : Type} (error : RuntimeError) :
    Rel α (Action.failRunning error) (Action.failRunning error)
  getMemory : Rel Memory Action.getMemory Action.getMemory
  getFunctions : Rel FunctionTable Action.getFunctions Action.getFunctions
  lookup (name : String) : Rel Value (Action.lookup name) (Action.lookup name)
  declare (name : String) : Rel Unit (Action.declare name) (Action.declare name)
  store (name : String) (value : Value) :
    Rel Unit (Action.store name value) (Action.store name value)
  register (decl : FunctionDecl) : Rel Unit (Action.register decl) (Action.register decl)
  inScope {α : Type} {action other : Action α} (enter : Memory → Memory) (h : Rel α action other) :
    Rel α (Action.inScope enter action) (Action.inScope enter other)
  fail {_} {error} _ := failRunning error

end Action

namespace Action.Uniform

variable {Rel : (α : Type) → Action α → Action α → Prop} (h : Action.Uniform Rel)

include h

theorem declareFunction (decl : FunctionDecl) :
    Rel Flow (declareFunction decl) (TinyScript.declareFunction decl) := by
  rw [declareFunction_eq_bind]
  refine h.bind h.getMemory fun memory => h.bind h.getFunctions fun functions => ?_
  split
  · exact h.failRunning _
  · split
    · exact h.failRunning _
    · refine h.bind (h.register decl) fun _ => ?_
      refine h.bind (h.declare decl.name.spelling) fun _ => ?_
      exact h.bind (h.store decl.name.spelling Value.functionMarker) fun _ => h.pure _

section

variable {evaluate other : Expr → Action Value} {execute continued : Statement → Action Flow}
  (hevaluate : ∀ expr, Rel Value (evaluate expr) (other expr))
  (hexecute : ∀ statement, Rel Flow (execute statement) (continued statement))

include hexecute in
theorem executeBlock (body : Block) :
    Rel Flow (executeBlock execute body) (TinyScript.executeBlock continued body) :=
  h.inScope Memory.beginNested (h.executeAll fun statement _ => hexecute statement)

include hevaluate in
theorem assign (name : String) (expr : Expr) :
    Rel Flow (assign evaluate name expr) (TinyScript.assign other name expr) := by
  have hstore := h.storeValue (hevaluate expr) (h.store name)
  rw [assign_eq_bind, assign_eq_bind]
  refine h.bind h.getMemory fun memory => h.bind h.getFunctions fun functions => ?_
  split
  · exact h.failRunning _
  · split
    · exact hstore
    · exact h.bind (h.declare name) fun _ => hstore

include hevaluate hexecute in
theorem callFunction (name : String) (arguments : List Expr) :
    Rel Value (callFunction evaluate execute name arguments)
      (TinyScript.callFunction other continued name arguments) := by
  rw [callFunction_eq_bind, callFunction_eq_bind]
  refine h.bind h.getFunctions fun functions => ?_
  cases functions.find? name with
  | none => exact h.failRunning _
  | some decl =>
      rw [callFound, callFound]
      split
      · refine h.bind (h.evaluateAll fun argument _ => hevaluate argument) fun values => ?_
        have hbind := h.bindParameters h.declare h.store decl.parameters values
        have hbody := h.executeBlock hexecute decl.body
        exact h.inScope Memory.beginFunction (h.runBody hbind hbody)
      · exact h.failRunning _

include hevaluate hexecute in
theorem evaluateStep (expr : Expr) :
    Rel Value (evaluateStep evaluate execute expr)
      (TinyScript.evaluateStep other continued expr) := by
  apply h.toSequentialCongruence.evaluateStep
  · exact fun token _ _ => h.lookup token.spelling
  · exact fun part _ => hevaluate part
  · exact fun operator arguments _ _ =>
      h.callFunction hevaluate hexecute operator.spelling arguments
  · exact fun error _ => h.failRunning error

include hevaluate hexecute in
theorem executeStep {print otherPrint : String → Action Unit} {rounds otherRounds : Nat}
    (hprint : ∀ text, Rel Unit (print text) (otherPrint text))
    (hwhile : ∀ {condition another : Action Bool} {body otherBody : Action Flow},
      Rel Bool condition another → Rel Flow body otherBody →
        Rel Flow (Flow.whileTrue condition body rounds)
          (Flow.whileTrue another otherBody otherRounds))
    (statement : Statement) :
    Rel Flow (executeStep print evaluate execute rounds statement)
      (TinyScript.executeStep otherPrint other continued otherRounds statement) := by
  apply h.toSequentialCongruence.executeStep hprint
  · exact fun expr _ => hevaluate expr
  · exact fun body _ => h.executeBlock hexecute body
  · exact fun target value _ => h.assign hevaluate target.spelling value
  · exact fun decl _ => h.declareFunction decl
  · intro condition body _
    have hcondition := h.evaluateCondition "while" (hevaluate condition)
    exact hwhile hcondition (h.executeBlock hexecute body)

end

end Action.Uniform

/-! ## Two runs side by side -/

namespace Action

variable {α : Type}

/-- From related contexts, both actions end in the same way and in related contexts. -/
def Simulates (Rel : Context → Context → Prop) (action other : Action α) : Prop :=
  ∀ first second : Context, Rel first second →
    (other second).1 = (action first).1 ∧ Rel (action first).2 (other second).2

theorem simulates_fail (Rel : Context → Context → Prop) (error : RuntimeError) :
    Simulates Rel (failRunning error : Action α) (failRunning error) :=
  fun _ _ h => ⟨rfl, h⟩

theorem congruence_simulates (Rel : Context → Context → Prop) :
    Congruence fun _ action other => Simulates Rel action other where
  pure _ _ _ h := ⟨rfl, h⟩
  fail _ := simulates_fail Rel _
  unfinished _ _ h := ⟨rfl, h⟩
  bind {_ _ action other next continued} haction hnext := by
    intro first second h
    obtain ⟨houtcome, hmiddle⟩ := haction first second h
    rw [bind_eq, bind_eq]
    rcases hfirst : action first with ⟨outcome, middle⟩
    rcases hsecond : other second with ⟨outcome', middle'⟩
    rw [hfirst, hsecond] at houtcome hmiddle
    obtain rfl : outcome' = outcome := houtcome
    cases outcome' with
    | done result => exact hnext result middle middle' hmiddle
    | failed error => exact ⟨rfl, hmiddle⟩
    | unfinished => exact ⟨rfl, hmiddle⟩

end Action

end TinyScript
