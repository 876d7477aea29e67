/-!
Arities: how many arguments a call may have.
-/

namespace PolyCalc

/-- The numbers of arguments that a call may have. -/
inductive Arity where
  | exactly (n : Nat)
  | atLeast (n : Nat)
deriving DecidableEq, Repr

/-- Whether a call may have `count` arguments. -/
def Arity.accepts : Arity → Nat → Bool
  | .exactly n, count => count == n
  | .atLeast n, count => n ≤ count

def Arity.text : Arity → String
  | .exactly n => toString n
  | .atLeast n => s!"at least {n}"

end PolyCalc
