import TinyScript.Error

/-!
# Order of values

Values of one kind are ordered. Numbers follow their place on the line of all numbers, so that every
number equals itself. Lists follow their texts, and not their elements.
-/

namespace TinyScript.Value

/-- The order of texts by their code points. -/
def compareText (s t : String) : Ordering :=
  compareOfLessAndEq s t

def compare : Value → Value → Except RuntimeError Ordering
  | number x, number y => .ok (Ord.compare x.rank y.rank)
  | boolean b, boolean c => .ok (Ord.compare b.toNat c.toNat)
  | character c, character d => .ok (Ord.compare c.toNat d.toNat)
  | string s, string t => .ok (compareText s t)
  | list us, list vs => .ok (compareText (list us).render (list vs).render)
  | u, v => .error (.comparisonMismatch u.kind v.kind)

end TinyScript.Value
