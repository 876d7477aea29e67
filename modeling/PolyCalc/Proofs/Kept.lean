import PolyCalc.Call
import PolyCalc.Operator.Apply
import PolyCalc.Proofs.Fallible

/-!
What operations on values keep.

Operators and calls make new values from few parts: scalars, matrices that are built
or mapped or combined, and polynomials. A property that each of these parts keeps is
`Kept`, and then every operator and every call keeps it too (`Kept.apply`,
`Kept.invoke`).
-/

namespace PolyCalc

/-- A property of values that numbers have, and that every way to make a matrix or a
polynomial passes on. -/
structure Kept {α : Type} [Scalar α] (P : Value α → Prop) : Prop where
  number : ∀ x, P (.number x)
  ofCells : ∀ {shape cells m}, Mat.ofCells shape cells = .ok m → P (.matrix m)
  map : ∀ {m} (f : α → α), P (.matrix m) → P (.matrix (m.map f))
  zipCells : ∀ {verb op a b m}, P (.matrix a) → P (.matrix b) → Mat.zipCells verb op a b = .ok m →
    P (.matrix m)
  mulCells : ∀ {a b m}, P (.matrix a) → P (.matrix b) → Mat.mul a b = .ok m → P (.matrix m)
  powCells : ∀ {m r n}, P (.matrix m) → Mat.pow m n = .ok r → P (.matrix r)
  scale : ∀ {p} (factor : α), P (.function p) → P (.function (p.scale factor))
  zipLongest : ∀ {p q} (op : α → α → α), P (.function p) → P (.function q) →
    P (.function ⟨Poly.zipLongest op p.coefficients q.coefficients⟩)
  addConstant : ∀ {p q c}, P (.function p) → Poly.addConstant p c = .ok q → P (.function q)
  mul : ∀ {p q r}, P (.function p) → P (.function q) → Poly.mul p q = .ok r → P (.function r)
  pow : ∀ {p q n}, P (.function p) → Poly.pow p n = .ok q → P (.function q)
  derive : ∀ {p}, P (.function p) → P (.function p.derive)
  integrate : ∀ {p q}, P (.function p) → Poly.integrate p = .ok q → P (.function q)

namespace Kept

/-- Whatever two values combine to has what both of them have. -/
theorem apply {α : Type} [Scalar α] {P : Value α → Prop} (kept : Kept P) {op : Operator}
    {lhs rhs v : Value α} (hl : P lhs) (hr : P rhs) (ok : op.apply lhs rhs = .ok v) : P v := by
  unfold Operator.apply at ok
  split at ok
  case h_1 =>
    cases ok
    exact kept.number _
  case h_2 =>
    cases ok
    exact kept.map _ hr
  case h_3 =>
    cases ok
    exact kept.scale _ hr
  case h_4 | h_5 =>
    obtain ⟨m, combined, rfl⟩ := map_ok ok
    exact kept.zipCells hl hr combined
  case h_6 =>
    obtain ⟨m, multiplied, rfl⟩ := map_ok ok
    exact kept.mulCells hl hr multiplied
  case h_7 | h_8 =>
    cases ok
    exact kept.map _ hl
  case h_9 | h_10 =>
    cases ok
    exact kept.zipLongest _ hl hr
  case h_11 =>
    obtain ⟨p, multiplied, rfl⟩ := map_ok ok
    exact kept.mul hl hr multiplied
  case h_12 | h_13 =>
    obtain ⟨p, added, rfl⟩ := map_ok ok
    exact kept.addConstant hl added
  case h_14 | h_15 =>
    cases ok
    exact kept.scale _ hl
  case h_16 => cases ok

end Kept

/-! ### Calls -/

theorem entryAt_mem {α : Type} {xs : List α} {i : Nat} {x : α} (ok : entryAt xs i = .ok x) :
    x ∈ xs := by
  unfold entryAt at ok
  split at ok
  · rename_i found
    cases ok
    exact List.mem_of_getElem? found
  · cases ok

namespace Kept

variable {P : Value Float → Prop} {args : List (Value Float)} {v : Value Float} {answer : Answer}

/-- An answer that prints nothing has what its value has. -/
theorem silently {result : Except Fault (Value Float)} (has : ∀ v, result = .ok v → P v)
    (ok : Native.silently result = .ok answer) : P answer.value ∧ ∀ v ∈ answer.printed, P v := by
  obtain ⟨v, found, ok⟩ := bind_ok ok
  cases ok
  exact ⟨has v found, fun _ member => absurd member List.not_mem_nil⟩

/-- Printing answers with one of its arguments. -/
theorem printAll (all : ∀ a ∈ args, P a) (ok : Native.printAll args = .ok answer) :
    P answer.value ∧ ∀ v ∈ answer.printed, P v := by
  unfold Native.printAll at ok
  split at ok
  · rename_i last found
    cases ok
    exact ⟨all last (List.mem_of_getLast? found), all⟩
  · cases ok

variable (kept : Kept P)

include kept

theorem raise {base : Value Float} {exponent : Float} (has : P base)
    (ok : Native.raise base exponent = .ok v) : P v := by
  unfold Native.raise at ok
  split at ok
  · cases ok
    exact kept.number _
  · obtain ⟨n, -, ok⟩ := bind_ok ok
    obtain ⟨m, raised, ok⟩ := bind_ok ok
    cases ok
    exact kept.powCells has raised
  · obtain ⟨n, -, ok⟩ := bind_ok ok
    obtain ⟨p, raised, ok⟩ := bind_ok ok
    cases ok
    exact kept.pow has raised
  · cases ok

theorem applyCellwise {name : String} (all : ∀ a ∈ args, P a)
    (ok : Native.applyCellwise name args = .ok v) : P v := by
  unfold Native.applyCellwise at ok
  split at ok
  · cases ok
  · obtain ⟨a, found, ok⟩ := bind_ok ok
    have has := all a (entryAt_mem found)
    split at ok
    · cases ok
      exact kept.number _
    · cases ok
      exact kept.map _ has
    · cases ok

theorem deriveOf (all : ∀ a ∈ args, P a) (ok : Native.deriveOf args = .ok v) : P v := by
  obtain ⟨a, found, ok⟩ := bind_ok ok
  have has := all a (entryAt_mem found)
  split at ok
  · cases ok
    exact kept.derive has
  · cases ok

theorem integrateOf (all : ∀ a ∈ args, P a) (ok : Native.integrateOf args = .ok v) : P v := by
  obtain ⟨a, found, ok⟩ := bind_ok ok
  have has := all a (entryAt_mem found)
  split at ok
  · obtain ⟨p, integrated, ok⟩ := bind_ok ok
    cases ok
    exact kept.integrate has integrated
  · cases ok

theorem numberOf {f : Float → Float} (ok : Native.numberOf f args = .ok v) : P v := by
  obtain ⟨a, -, ok⟩ := bind_ok ok
  obtain ⟨x, -, ok⟩ := bind_ok ok
  cases ok
  exact kept.number _

theorem binomialOf (ok : Native.binomialOf args = .ok v) : P v := by
  obtain ⟨a, -, ok⟩ := bind_ok ok
  obtain ⟨n, -, ok⟩ := bind_ok ok
  obtain ⟨b, -, ok⟩ := bind_ok ok
  obtain ⟨k, -, ok⟩ := bind_ok ok
  cases ok
  exact kept.number _

theorem powOf (all : ∀ a ∈ args, P a) (ok : Native.powOf args = .ok v) : P v := by
  obtain ⟨a, -, ok⟩ := bind_ok ok
  obtain ⟨exponent, -, ok⟩ := bind_ok ok
  obtain ⟨base, found, ok⟩ := bind_ok ok
  exact kept.raise (all base (entryAt_mem found)) ok

/-- A matrix is checked when it is built, not when its dimensions are given. -/
theorem construct {k : Constructor} (ok : k.construct args = .ok v) : P v := by
  unfold Constructor.construct at ok
  split at ok
  · cases ok
  split at ok
  · cases ok
  · obtain ⟨cells, -, ok⟩ := bind_ok ok
    obtain ⟨m, built, ok⟩ := bind_ok ok
    cases ok
    exact kept.ofCells built

theorem call {operation : Native} (all : ∀ a ∈ args, P a)
    (ok : operation.call args = .ok answer) : P answer.value ∧ ∀ v ∈ answer.printed, P v := by
  cases operation with
  | print => exact printAll all ok
  | derive => exact silently (fun _ => kept.deriveOf all) ok
  | integrate => exact silently (fun _ => kept.integrateOf all) ok
  | binomial => exact silently (fun _ => kept.binomialOf) ok
  | pow => exact silently (fun _ => kept.powOf all) ok
  | fact | sin | cos | tan => exact silently (fun _ => kept.numberOf) ok
  | sqrt | floor | ceiling | round => exact silently (fun _ => kept.applyCellwise all) ok

/-- Whatever a call answers has what its arguments have, whether the callee has been
given dimensions or not. -/
theorem invoke {c : Callable Float} (all : ∀ a ∈ args, P a) (ok : c.invoke args = .ok answer) :
    P answer.value ∧ ∀ v ∈ answer.printed, P v := by
  cases c with
  | native operation =>
      simp only [Callable.invoke] at ok
      split at ok
      · exact kept.call all ok
      · cases ok
  | polynomial p =>
      simp only [Callable.invoke] at ok
      split at ok
      · cases ok
      · exact silently (fun _ => kept.numberOf) ok
  | constructor k => exact silently (fun _ => kept.construct) ok

end Kept

end PolyCalc
