import TinyScript.Number.Text

/-!
# Values

What expressions evaluate to, and how a value is written. A list shows quotes around the texts and
characters in it, which stand bare on their own.
-/

namespace TinyScript

inductive Value where
  | number (x : Number)
  | boolean (b : Bool)
  | character (c : Char)
  | string (text : String)
  | list (elements : List Value)
deriving Inhabited

/-- Values are only compared within one kind. -/
inductive Kind where
  | number | boolean | character | string | list
deriving DecidableEq, Repr

def Kind.name : Kind → String
  | number => "number"
  | boolean => "boolean"
  | character => "character"
  | string => "string"
  | list => "list"

namespace Value

def kind : Value → Kind
  | number _ => .number
  | boolean _ => .boolean
  | character _ => .character
  | string _ => .string
  | list _ => .list

/-- What a function's name is bound to when the function is declared, so that the name is taken. -/
def functionMarker : Value := boolean true

mutual

/-- Equality part by part, with numbers compared as numbers: `0` equals `-0`, and what is not a
number differs from itself. -/
def beq : Value → Value → Bool
  | number x, number y => x.equals y
  | boolean b, boolean c => b == c
  | character c, character d => c == d
  | string s, string t => s == t
  | list us, list vs => beqAll us vs
  | _, _ => false

def beqAll : List Value → List Value → Bool
  | [], [] => true
  | u :: us, v :: vs => beq u v && beqAll us vs
  | _, _ => false

end

instance : BEq Value := ⟨beq⟩

/-! ## Text -/

/-- The text of a number in a program's output, where zero has no sign. -/
def numberText (x : Number) : String :=
  if x.magnitude = 0 then "0" else x.text

mutual

def render : Value → String
  | number x => numberText x
  | boolean b => if b then "true" else "false"
  | character c => .singleton c
  | string text => text
  | list elements => "[" ++ " ".intercalate (renderElements elements) ++ "]"

def renderElements : List Value → List String
  | [] => []
  | element :: elements =>
    let text := match element with
      | string s => "\"" ++ s ++ "\""
      | character c => "'" ++ .singleton c ++ "'"
      | other => other.render
    text :: renderElements elements

end

end Value

end TinyScript
