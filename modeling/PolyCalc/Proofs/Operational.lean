import PolyCalc.Eval.Step
import PolyCalc.Proofs.Fallible

/-!
Faults of operations on values.

An operation on values knows no names, tokens or places of the program. What it
answers with is a fault of its domain, or the fault of an access out of range:
it is `Operational`. This holds of the operators, of calls and generic
arguments, and of the numbers that lambdas are built from.
-/

namespace PolyCalc

variable {α β : Type}

/-- A fault that says nothing about the text of the program. -/
def Fault.Operational (fault : Fault) : Prop := fault.kind = .domain ∨ fault = .outOfRange

/-- Whatever fault the computation has is operational. -/
def Operational (x : Except Fault α) : Prop := ∀ fault, x = .error fault → fault.Operational

namespace Operational

@[simp] theorem ok (a : α) : Operational (.ok a) := fun _ failed => nomatch failed

@[simp] theorem pure (a : α) : Operational (pure a) := ok a

/-- A fault of the domain is operational by its kind. -/
theorem domain {fault : Fault} (kind : fault.kind = .domain) :
    Operational (.error fault : Except Fault α) :=
  FaultsIn.error (.inl kind)

theorem outOfRange : Operational (.error .outOfRange : Except Fault α) :=
  FaultsIn.error (.inr rfl)

/-- Computations in sequence are operational if each of them is. -/
theorem bind {x : Except Fault α} {f : α → Except Fault β} (first : Operational x)
    (rest : ∀ a, Operational (f a)) : Operational (x >>= f) :=
  FaultsIn.bind first fun a _ => rest a

theorem map {x : Except Fault α} (f : α → β) (h : Operational x) : Operational (f <$> x) :=
  FaultsIn.map f h

theorem foldlM {f : β → α → Except Fault β} (each : ∀ b a, Operational (f b a)) (xs : List α)
    (b : β) : Operational (xs.foldlM f b) :=
  FaultsIn.foldlM (fun b a _ _ => each b a) (fun _ _ _ _ _ => trivial) trivial

theorem mapM {f : α → Except Fault β} (each : ∀ a, Operational (f a)) (xs : List α) :
    Operational (xs.mapM f) :=
  FaultsIn.mapM fun a _ => each a

/-- Powers are operational if products are. -/
theorem power {mul : β → β → Except Fault β} (each : ∀ a b, Operational (mul a b))
    (result base : β) (n : Nat) : Operational (timesPower mul result base n) :=
  FaultsIn.power (fun a b _ _ => each a b) (fun _ _ _ _ _ _ => trivial) trivial trivial n

end Operational

open Operational

/-! ### Polynomials and matrices -/

theorem checkDegree_operational (degree : Nat) : Operational (checkDegree degree) := by
  unfold checkDegree
  split
  · exact domain rfl
  · exact ok _

theorem addAt_operational [Add α] (cs : Array α) (i : Nat) (c : α) :
    Operational (addAt cs i c) := by
  unfold addAt
  split
  · exact ok _
  · exact outOfRange

theorem entryAt_operational (xs : List α) (i : Nat) : Operational (entryAt xs i) := by
  unfold entryAt
  split
  · exact ok _
  · exact outOfRange

namespace Poly

variable [Scalar α]

theorem integrate_operational (p : Poly α) : Operational p.integrate :=
  bind (checkDegree_operational _) fun _ => ok _

theorem addConstant_operational (p : Poly α) (c : α) : Operational (p.addConstant c) := by
  unfold addConstant
  split
  · exact outOfRange
  · exact ok _

theorem mul_operational (p q : Poly α) : Operational (p.mul q) := by
  unfold mul
  split
  · exact bind (checkDegree_operational _) fun _ =>
      bind (foldlM (fun _ _ => addAt_operational _ _ _) _ _) fun _ => ok _
  · exact outOfRange

theorem pow_operational (p : Poly α) (n : Nat) : Operational (p.pow n) := by
  unfold pow
  split
  · exact bind (checkDegree_operational _) fun _ => power mul_operational _ _ _
  · exact outOfRange

end Poly

namespace Mat

theorem ofCells_operational (shape : Shape) (cells : List α) :
    Operational (Mat.ofCells shape cells) := by
  unfold ofCells
  split
  · exact domain rfl
  split
  · exact domain rfl
  split
  · exact domain rfl
  · exact ok _

theorem zipCells_operational (verb : String) (op : α → α → α) (a b : Mat α) :
    Operational (zipCells verb op a b) := by
  unfold zipCells
  split
  · exact domain rfl
  · exact ok _

theorem cell_operational (m : Mat α) (r c : Nat) : Operational (m.cell r c) := by
  unfold cell
  split
  · exact ok _
  · exact outOfRange

variable [Scalar α]

theorem mul_operational (a b : Mat α) : Operational (a.mul b) := by
  unfold mul
  split
  · exact domain rfl
  · refine bind (mapM (fun _ => foldlM (fun _ _ => ?_) _ _) _) fun _ => ok _
    exact bind (cell_operational _ _ _) fun _ => bind (cell_operational _ _ _) fun _ => ok _

theorem pow_operational (m : Mat α) (n : Nat) : Operational (m.pow n) := by
  unfold pow
  split
  · exact domain rfl
  · exact power mul_operational _ _ _

end Mat

/-! ### Operators -/

/-- A fault of an operator is about its operands. -/
theorem Operator.apply_operational [Scalar α] (op : Operator) (lhs rhs : Value α) :
    Operational (op.apply lhs rhs) := by
  unfold Operator.apply
  split
  case h_4 | h_5 => exact map _ (Mat.zipCells_operational _ _ _ _)
  case h_6 => exact map _ (Mat.mul_operational _ _)
  case h_11 => exact map _ (Poly.mul_operational _ _)
  case h_12 | h_13 => exact map _ (Poly.addConstant_operational _ _)
  case h_16 => exact domain rfl
  all_goals exact ok _

theorem Value.asNumber_operational (v : Value α) : Operational v.asNumber := by
  unfold Value.asNumber
  split
  · exact ok _
  · exact domain rfl

/-! ### Calls -/

namespace Native

theorem silently_operational {result : Except Fault (Value Float)} (h : Operational result) :
    Operational (silently result) :=
  bind h fun _ => ok _

theorem wholeExponent_operational (x : Float) : Operational (wholeExponent x) := by
  unfold wholeExponent
  split
  · exact ok _
  · exact domain rfl

theorem raise_operational (base : Value Float) (exponent : Float) :
    Operational (raise base exponent) := by
  unfold raise
  split
  · exact ok _
  · exact bind (wholeExponent_operational _) fun _ => bind (Mat.pow_operational _ _) fun _ => ok _
  · exact bind (wholeExponent_operational _) fun _ => bind (Poly.pow_operational _ _) fun _ => ok _
  · exact domain rfl

variable (args : List (Value Float))

theorem applyCellwise_operational (name : String) : Operational (applyCellwise name args) := by
  unfold applyCellwise
  split
  · exact domain rfl
  · refine bind (entryAt_operational _ _) fun v => ?_
    split
    · exact ok _
    · exact ok _
    · exact domain rfl

theorem deriveOf_operational : Operational (deriveOf args) := by
  refine bind (entryAt_operational _ _) fun v => ?_
  split
  · exact ok _
  · exact domain rfl

theorem integrateOf_operational : Operational (integrateOf args) := by
  refine bind (entryAt_operational _ _) fun v => ?_
  split
  · exact bind (Poly.integrate_operational _) fun _ => ok _
  · exact domain rfl

theorem numberOf_operational (f : Float → Float) : Operational (numberOf f args) :=
  bind (entryAt_operational _ _) fun v => bind v.asNumber_operational fun _ => ok _

theorem binomialOf_operational : Operational (binomialOf args) :=
  bind (entryAt_operational _ _) fun v => bind v.asNumber_operational fun _ =>
    bind (entryAt_operational _ _) fun w => bind w.asNumber_operational fun _ => ok _

theorem powOf_operational : Operational (powOf args) :=
  bind (entryAt_operational _ _) fun v => bind v.asNumber_operational fun _ =>
    bind (entryAt_operational _ _) fun _ => raise_operational _ _

theorem printAll_operational : Operational (printAll args) := by
  unfold printAll
  split
  · exact ok _
  · exact domain rfl

/-- A fault of a native operation is about its arguments. -/
theorem call_operational (operation : Native) : Operational (operation.call args) := by
  cases operation with
  | print => exact printAll_operational args
  | derive => exact silently_operational (deriveOf_operational args)
  | integrate => exact silently_operational (integrateOf_operational args)
  | binomial => exact silently_operational (binomialOf_operational args)
  | pow => exact silently_operational (powOf_operational args)
  | fact | sin | cos | tan => exact silently_operational (numberOf_operational args _)
  | sqrt | floor | ceiling | round => exact silently_operational (applyCellwise_operational args _)

end Native

namespace Constructor

theorem dimension_operational (x : Float) : Operational (dimension x) := by
  unfold dimension
  split
  · exact ok _
  · exact domain rfl

/-- Dimensions are checked one by one and then together. -/
theorem bind_operational (c : Constructor) (generics : List Float) :
    Operational (c.bind generics) := by
  have shaped (shape : Shape) : Operational
      (if cellLimit ≤ shape.size then .error (.invalidDimensions (.tooLarge shape))
        else Pure.pure { c with dimensions := some shape }) := by
    split
    · exact domain rfl
    · exact ok _
  unfold Constructor.bind
  split
  · exact domain rfl
  split
  · exact domain rfl
  · refine Operational.bind (entryAt_operational _ _) fun _ =>
      Operational.bind (dimension_operational _) fun rows => ?_
    dsimp only
    split
    · exact Operational.bind (entryAt_operational _ _) fun _ =>
        Operational.bind (dimension_operational _) fun columns => shaped ⟨rows, columns⟩
    · exact shaped ⟨rows, 1⟩

theorem construct_operational (c : Constructor) (args : List (Value Float)) :
    Operational (c.construct args) := by
  unfold construct
  split
  · exact domain rfl
  split
  · exact domain rfl
  · exact Operational.bind (mapM Value.asNumber_operational _) fun _ =>
      Operational.bind (Mat.ofCells_operational _ _) fun _ => ok _

end Constructor

namespace Callable

theorem specialize_operational (c : Callable Float) (generics : List Float) :
    Operational (c.specialize generics) := by
  unfold specialize
  split
  · exact bind (Constructor.bind_operational _ _) fun _ => ok _
  · exact domain rfl

/-- A fault of a call does not hold the name that it was called by. -/
theorem invoke_operational (c : Callable Float) (args : List (Value Float)) :
    Operational (c.invoke args) := by
  unfold invoke
  split
  · split
    · exact Native.call_operational _ _
    · exact domain rfl
  · split
    · exact domain rfl
    · exact Native.silently_operational (Native.numberOf_operational _ _)
  · exact Native.silently_operational (Constructor.construct_operational _ _)

end Callable

/-! ### Lambdas -/

theorem Lambda.add_operational (l : Lambda) (coefficient : Float) (power : Nat) :
    Operational (l.add coefficient power) :=
  bind (addAt_operational _ _ _) fun _ => ok _

theorem powerOf_operational (x : Float) : Operational (powerOf x) := by
  unfold powerOf
  split
  · exact domain rfl
  · exact bind (checkDegree_operational _) fun _ => ok _

end PolyCalc
