import TinyScript.Context

/-!
# Actions

An action works on a context and ends in one of three ways. Whatever an action did before it failed
stays done. That an action is unfinished says only that the bound on its work was too small.
-/

namespace TinyScript

inductive Outcome (α : Type) where
  | done (result : α)
  | failed (error : Error)
  | unfinished

def Action (α : Type) : Type := Context → Outcome α × Context

namespace Action

variable {α β : Type}

@[inline] protected def pure (result : α) : Action α := fun context =>
  (.done result, context)

@[inline] protected def bind (action : Action α) (next : α → Action β) : Action β := fun context =>
  match action context with
  | (.done result, context) => next result context
  | (.failed error, context) => (.failed error, context)
  | (.unfinished, context) => (.unfinished, context)

instance : Monad Action where
  pure := Action.pure
  bind := Action.bind

def fail (error : Error) : Action α := fun context =>
  (.failed error, context)

def failRunning (error : RuntimeError) : Action α :=
  fail (.running error)

def unfinished : Action α := fun context =>
  (.unfinished, context)

/-- Takes over a result that does not depend on the context. -/
def ofExcept : Except RuntimeError α → Action α
  | .ok result => pure result
  | .error error => failRunning error

def getContext : Action Context := fun context =>
  (.done context, context)

/-! ## Memory and functions -/

def lookup (name : String) : Action Value := fun context =>
  ofExcept (context.memory.lookup name) context

def declare (name : String) : Action Unit := fun context =>
  (.done (), { context with memory := context.memory.declare name })

def store (name : String) (value : Value) : Action Unit := fun context =>
  match context.memory.store name value with
  | .ok memory => (.done (), { context with memory })
  | .error error => failRunning error context

def register (decl : FunctionDecl) : Action Unit := fun context =>
  (.done (), { context with functions := FunctionTable.register context.functions decl })

/-- Runs the action in a scope of its own, which is left however the action ends. -/
def inScope (enter : Memory → Memory) (action : Action α) : Action α := fun context =>
  let (outcome, context) := action { context with memory := enter context.memory }
  (outcome, { context with memory := context.memory.endScope })

/-! ## Output -/

def write (piece : String) : Action Unit := fun context =>
  match context.sink.write? piece with
  | some sink => (.done (), { context with sink })
  | none => (.failed (.channel .sinkFull), context)

/-- Prints a line: its text, and then the line feed. -/
def printLine (text : String) : Action Unit := do
  write text
  write "\n"

end Action

/-! ## Flow -/

/-- How a statement ends. A returned value travels outward up to the call it ends. -/
inductive Flow where
  | completed
  | returning (value : Value)

namespace Flow

/-- Runs the action only if nothing is being returned. -/
def andThen (first : Action Flow) (next : Action Flow) : Action Flow := do
  match ← first with
  | .completed => next
  | .returning value => return .returning value

/-- Runs the body a number of times, up to the first return. -/
def times (body : Action Flow) : Nat → Action Flow
  | 0 => pure .completed
  | rounds + 1 => fun context =>
    match body context with
    | (.done .completed, context) => times body rounds context
    | other => other

/-- Runs the body as long as the condition holds, up to the first return. The last argument bounds
the rounds. -/
def whileTrue (condition : Action Bool) (body : Action Flow) : Nat → Action Flow
  | 0 => Action.unfinished
  | rounds + 1 => fun context =>
    match condition context with
    | (.done false, context) => (.done .completed, context)
    | (.failed error, context) => (.failed error, context)
    | (.unfinished, context) => (.unfinished, context)
    | (.done true, context) =>
      match body context with
      | (.done .completed, context) => whileTrue condition body rounds context
      | other => other

end Flow

end TinyScript
