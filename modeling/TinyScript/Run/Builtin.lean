import TinyScript.Action
import TinyScript.Number.Rounding
import TinyScript.Value.Order

/-!
# Built-in operators

The operators that the language comes with. They evaluate their arguments themselves, since some do
not need all of them and comparisons evaluate some of them twice. How an argument is evaluated is a
parameter of this module.
-/

namespace TinyScript

/-- The argument counts that an operator accepts. -/
inductive Arity where
  | exactly (count : Nat)
  | atLeast (count : Nat)
deriving DecidableEq, Repr

namespace Arity

def accepts (found : Nat) : Arity → Bool
  | exactly count => found = count
  | atLeast count => count ≤ found

def words : Arity → String
  | exactly count => toString count
  | atLeast count => "at least " ++ toString count

end Arity

inductive Arithmetic where
  | add | multiply | divide
deriving DecidableEq, Repr

namespace Arithmetic

def spelling : Arithmetic → String
  | add => "+"
  | multiply => "*"
  | divide => "/"

def apply : Arithmetic → Number → Number → Number
  | add, x, y => x + y
  | multiply, x, y => x * y
  | divide, x, y => x / y

end Arithmetic

inductive Connective where
  | and | or
deriving DecidableEq, Repr

namespace Connective

def spelling : Connective → String
  | and => "and"
  | or => "or"

/-- The value of an argument that decides the result, whatever the arguments behind it are. -/
def decisive : Connective → Bool
  | and => false
  | or => true

end Connective

inductive Relation where
  | equal | different | less | atMost | greater | atLeast
deriving DecidableEq, Repr

namespace Relation

def spelling : Relation → String
  | equal => "=="
  | different => "!="
  | less => "<"
  | atMost => "<="
  | greater => ">"
  | atLeast => ">="

def holds (order : Ordering) : Relation → Bool
  | equal => order.isEq
  | different => order.isNe
  | less => order.isLT
  | atMost => order.isLE
  | greater => order.isGT
  | atLeast => order.isGE

end Relation

inductive Builtin where
  | arithmetic (operation : Arithmetic)
  | not
  | connective (operation : Connective)
  | relation (operation : Relation)
  | len | get | cat | str
deriving DecidableEq, Repr

namespace Builtin

def all : List Builtin :=
  [.arithmetic .add, .arithmetic .multiply, .arithmetic .divide, .not,
   .connective .and, .connective .or,
   .relation .equal, .relation .different, .relation .less, .relation .atMost,
   .relation .greater, .relation .atLeast, .len, .get, .cat, .str]

def spelling : Builtin → String
  | arithmetic operation => operation.spelling
  | not => "not"
  | connective operation => operation.spelling
  | relation operation => operation.spelling
  | len => "len"
  | get => "get"
  | cat => "cat"
  | str => "str"

def arity : Builtin → Arity
  | arithmetic _ | connective _ | cat => .atLeast 2
  | relation _ => .atLeast 1
  | not | len | str => .exactly 1
  | get => .exactly 2

/-- The operator with the given spelling. -/
def named? (spelling : String) : Option Builtin :=
  all.find? fun builtin => builtin.spelling = spelling

theorem mem_all (builtin : Builtin) : builtin ∈ all := by
  rcases builtin with ⟨⟨⟩⟩ | _ | ⟨⟨⟩⟩ | ⟨⟨⟩⟩ | _ | _ | _ | _ <;> decide

/-- The spelling of an operator is no identifier. -/
theorem classify_spelling (builtin : Builtin) :
    TokenKind.classify builtin.spelling ≠ .identifier := by
  have hall : ∀ operator ∈ all, TokenKind.classify operator.spelling ≠ .identifier := by
    decide +kernel
  exact hall builtin builtin.mem_all

theorem spelling_of_named? {spelling : String} {builtin : Builtin}
    (h : named? spelling = some builtin) : builtin.spelling = spelling := by
  simpa using List.find?_some h

/-! ## Expected kinds -/

def wrongKind {α : Type} (operator expected : String) (found : Value) : Action α :=
  .failRunning (.typeMismatch operator expected found.kind)

def expectNumber (operator : String) : Value → Action Number
  | .number x => pure x
  | other => wrongKind operator "number" other

def expectBoolean (operator : String) : Value → Action Bool
  | .boolean b => pure b
  | other => wrongKind operator "boolean" other

/-- The elements of a list, or the characters of a string. -/
def expectSequence (operator : String) : Value → Action (List Value)
  | .list elements => pure elements
  | .string text => pure (text.toList.map .character)
  | other => wrongKind operator "list or string" other

/-! ## Operators -/

variable (evaluate : Expr → Action Value)

/-- Combines a number with the arguments from left to right. -/
def foldNumbers (operation : Arithmetic) (x : Number) : List Expr → Action Value
  | [] => return .number x
  | argument :: arguments => do
    let y ← expectNumber operation.spelling (← evaluate argument)
    foldNumbers operation (operation.apply x y) arguments

/-- Evaluates arguments up to the first decisive one. -/
def connect (operation : Connective) : List Expr → Action Value
  | [] => return .boolean !operation.decisive
  | argument :: arguments => do
    let b ← expectBoolean operation.spelling (← evaluate argument)
    if b = operation.decisive then return .boolean b else connect operation arguments

/-- Compares neighbours up to the first pair that is not so related. Both are evaluated for each
pair, so an argument with two neighbours is evaluated twice and one with none not at all. -/
def compareNeighbours (operation : Relation) : List Expr → Action Value
  | first :: second :: arguments => do
    let u ← evaluate first
    let v ← evaluate second
    let order ← Action.ofExcept (u.compare v)
    if operation.holds order then compareNeighbours operation (second :: arguments)
    else return .boolean false
  | _ => return .boolean true

/-- Puts the elements of further lists behind the given ones. -/
def joinLists (elements : List Value) : List Expr → Action Value
  | [] => return .list elements
  | argument :: arguments => do
    match ← evaluate argument with
    | .list more => joinLists (elements ++ more) arguments
    | other => wrongKind "cat" "list" other

/-- Puts further strings behind the given one. -/
def joinStrings (text : String) : List Expr → Action Value
  | [] => return .string text
  | argument :: arguments => do
    match ← evaluate argument with
    | .string more => joinStrings (text ++ more) arguments
    | other => wrongKind "cat" "string" other

/-- The place that an index stands for in a sequence of the given length. It is compared not with
the length but with the number nearest to the length, as `len` gives it. -/
def placeOf (length : Nat) (index : Number) : Except RuntimeError Nat :=
  if index.count = .none then .error (.nonIntegerIndex index)
  else if index.less (.ofMagnitude false 0) || (Number.ofNat length).atMost index then
    .error (.indexOutOfBounds index length)
  else .ok index.toNat

/-- Every place lies within the sequence, also if the length has been rounded up. -/
theorem lt_of_placeOf {length place : Nat} {index : Number}
    (h : placeOf length index = .ok place) : place < length := by
  unfold placeOf at h
  split at h
  · cases h
  · next hcount =>
      split at h
      · cases h
      · next hbounds =>
          cases h
          rw [Bool.not_eq_true, Bool.or_eq_false_iff] at hbounds
          exact Number.toNat_lt (Number.isNaN_of_count hcount) hbounds.1 hbounds.2

/-- The element at an index. -/
def elementAt (elements : List Value) (index : Number) : Action Value :=
  match h : placeOf elements.length index with
  | .ok place => pure (elements.get ⟨place, lt_of_placeOf h⟩)
  | .error error => .failRunning error

theorem elementAt_of_ok {elements : List Value} {index : Number} {place : Nat}
    (h : placeOf elements.length index = .ok place) :
    elementAt elements index = pure (elements.get ⟨place, lt_of_placeOf h⟩) := by
  unfold elementAt
  split
  · next other hother =>
      cases h.symm.trans hother
      rfl
  · next hother => cases h.symm.trans hother

theorem elementAt_of_error {elements : List Value} {index : Number} {error : RuntimeError}
    (h : placeOf elements.length index = .error error) :
    elementAt elements index = .failRunning error := by
  unfold elementAt
  split
  · next hother => cases h.symm.trans hother
  · next hother =>
      cases h.symm.trans hother
      rfl

/-- Applies an operator to arguments. Their number is checked before any is evaluated. -/
def apply : Builtin → List Expr → Action Value
  | .arithmetic operation, first :: second :: rest => do
    let x ← expectNumber operation.spelling (← evaluate first)
    foldNumbers evaluate operation x (second :: rest)
  | .not, [argument] => do
    return .boolean !(← expectBoolean "not" (← evaluate argument))
  | .connective operation, first :: second :: rest =>
    connect evaluate operation (first :: second :: rest)
  | .relation operation, first :: rest => compareNeighbours evaluate operation (first :: rest)
  | .len, [argument] => do
    let elements ← expectSequence "len" (← evaluate argument)
    return .number (Number.ofNat elements.length)
  | .get, [sequence, index] => do
    let elements ← expectSequence "get" (← evaluate sequence)
    elementAt elements (← expectNumber "get" (← evaluate index))
  | .cat, first :: second :: rest => do
    match ← evaluate first with
    | .list elements => joinLists evaluate elements (second :: rest)
    | .string text => joinStrings evaluate text (second :: rest)
    | other => wrongKind "cat" "list or string" other
  | .str, [argument] => return .string (← evaluate argument).render
  | builtin, arguments =>
    .failRunning (.incorrectArity builtin.spelling builtin.arity.words arguments.length)

end Builtin

end TinyScript
