import PolyCalc.Fault

/-!
Powers by repeated squaring, for a product that may fail.

The exponent is read from its lowest binary digit. `base` is squared from digit
to digit and multiplied into `result` where the digit is one; there is no
squaring after the last digit.
-/

namespace PolyCalc

/-- `result * base ^ n` for the given product. -/
def timesPower {β : Type} (mul : β → β → Except Fault β) (result base : β) (n : Nat) :
    Except Fault β :=
  if n = 0 then .ok result
  else do
    let result ← if n % 2 = 1 then mul result base else .ok result
    if n / 2 = 0 then .ok result
    else
      let base ← mul base base
      timesPower mul result base (n / 2)
termination_by n
decreasing_by omega

end PolyCalc
