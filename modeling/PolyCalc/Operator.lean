/-!
The binary operators and how they are written.
-/

namespace PolyCalc

inductive Operator where
  | add
  | subtract
  | multiply
  | divide
  | modulo
deriving DecidableEq, Repr

def Operator.symbol : Operator → String
  | add => "+"
  | subtract => "-"
  | multiply => "*"
  | divide => "/"
  | modulo => "%"

end PolyCalc
