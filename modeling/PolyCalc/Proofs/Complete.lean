import PolyCalc.Eval.Step
import PolyCalc.Proofs.WellFormed

/-!
Accesses within range.

Operations read arguments, coefficients and cells by position, and an entry that
is not there is the fault `outOfRange`. A value is `Complete` if a polynomial has a
coefficient and a matrix has all its cells. Nothing more is asked of it: there may be
any number of coefficients, and matrices without rows. Operators, calls and generic
arguments on complete values are `InRange`, each by a check made before the access,
and their results are complete again (`Value.kept_complete`).
-/

namespace PolyCalc

variable {α β : Type}

/-- The computation accesses no entry that is not there. -/
abbrev InRange (x : Except Fault α) : Prop := FaultsIn (· ≠ .outOfRange) x

/-- A fault of the domain is none of an access. -/
theorem InRange.domain {fault : Fault} (kind : fault.kind = .domain) :
    InRange (.error fault : Except Fault α) := by
  apply FaultsIn.error
  rintro rfl
  cases kind

open FaultsIn InRange

/-! ### Accesses -/

theorem entryAt_inRange {xs : List α} {i : Nat} (inside : i < xs.length) :
    InRange (entryAt xs i) := by
  rw [entryAt, List.getElem?_eq_getElem inside]
  exact ok _

theorem addAt_inRange [Add α] {cs : Array α} {i : Nat} (c : α) (inside : i < cs.size) :
    InRange (addAt cs i c) := by
  rw [addAt, dif_pos inside]
  exact ok _

theorem checkDegree_inRange (degree : Nat) : InRange (checkDegree degree) := by
  unfold checkDegree
  split
  · exact domain rfl
  · exact ok _

/-! ### Polynomials -/

namespace Poly

/-- The polynomial has a coefficient. -/
def Complete (p : Poly α) : Prop := 1 ≤ p.coefficients.length

variable [Scalar α] {p q r : Poly α} {c : α} {n : Nat}

theorem complete_ofList (cs : List α) : (ofList cs).Complete := by
  cases cs with
  | nil => exact Nat.le_refl 1
  | cons c cs => exact Nat.le_add_left 1 _

theorem complete_zipLongest (op : α → α → α) (hp : p.Complete) :
    (⟨zipLongest op p.coefficients q.coefficients⟩ : Poly α).Complete := by
  unfold Complete at hp ⊢
  rw [length_zipLongest]
  exact Nat.le_trans hp (Nat.le_max_left ..)

theorem complete_scale (factor : α) (hp : p.Complete) : (p.scale factor).Complete := by
  simpa [Complete, scale] using hp

theorem complete_addConstant (done : p.addConstant c = .ok q) : q.Complete := by
  unfold addConstant at done
  split at done
  · cases done
  · cases done
    exact Nat.le_add_left 1 _

theorem complete_mul (done : p.mul q = .ok r) : r.Complete := (wellFormed_mul done).size_pos

theorem complete_pow (hp : p.Complete) (done : p.pow n = .ok q) : q.Complete := by
  unfold pow at done
  split at done
  · obtain ⟨_, -, done⟩ := bind_ok done
    exact timesPower_keeps (fun _ _ _ _ _ => complete_mul) (complete_ofList [1]) hp done
  · cases done

theorem addConstant_inRange (hp : p.Complete) (c : α) : InRange (p.addConstant c) := by
  unfold addConstant
  split
  · rename_i empty
    rw [Complete, empty] at hp
    cases hp
  · exact ok _

theorem integrate_inRange (p : Poly α) : InRange p.integrate :=
  bind (checkDegree_inRange _) fun _ _ => ok _

/-- The powers of a product run up to the sum of the two degrees. -/
theorem productTerms_lt {i : Nat} (member : (i, c) ∈ productTerms p q) :
    i + 2 ≤ p.size + q.size := by
  obtain ⟨⟨a, j⟩, left, member⟩ := List.mem_flatMap.mp member
  obtain ⟨⟨b, k⟩, right, same⟩ := List.mem_map.mp member
  cases same
  have leftInside := List.snd_lt_of_mem_zipIdx left
  have rightInside := List.snd_lt_of_mem_zipIdx right
  simp only [size] at *
  omega

/-- There is room for every term of a product. -/
theorem mul_inRange (hp : p.Complete) (hq : q.Complete) : InRange (p.mul q) := by
  unfold mul
  split
  · rename_i top sizes
    refine bind (checkDegree_inRange _) fun _ _ => bind ?_ fun _ _ => ok _
    refine foldlM (P := fun cs => cs.size = top + 1) ?_ ?_ Array.size_replicate
    · rintro cs ⟨i, c⟩ member size
      have inside := productTerms_lt member
      exact addAt_inRange c (by omega)
    · intro cs term cs' size added
      rw [addAt_size added, size]
  · rename_i short
    have two : p.size + q.size = (p.size + q.size - 2) + 2 := by
      unfold Complete at hp hq
      simp only [size]
      omega
    exact absurd two (short _)

theorem pow_inRange (hp : p.Complete) (n : Nat) : InRange (p.pow n) := by
  unfold pow
  split
  · refine bind (checkDegree_inRange _) fun _ _ => ?_
    exact power (fun _ _ => mul_inRange) (fun _ _ _ _ _ => complete_mul) (complete_ofList [1]) hp n
  · rename_i empty
    rw [Complete, show p.coefficients.length = 0 from empty] at hp
    cases hp

end Poly

/-! ### Matrices -/

namespace Mat

/-- The matrix has all its cells. -/
def Complete (m : Mat α) : Prop := m.cells.size = m.shape.size

variable {a b m r : Mat α}

theorem complete_map (f : α → α) (hm : m.Complete) : (m.map f).Complete :=
  (Array.size_map ..).trans hm

theorem zipCells_inRange (verb : String) (op : α → α → α) (a b : Mat α) :
    InRange (zipCells verb op a b) := by
  unfold zipCells
  split
  · exact domain rfl
  · exact ok _

theorem ofCells_inRange (shape : Shape) (cells : List α) : InRange (ofCells shape cells) := by
  unfold ofCells
  split
  · exact domain rfl
  split
  · exact domain rfl
  split
  · exact domain rfl
  · exact ok _

/-- The position of a cell is one of the cells. -/
theorem position_lt {rows columns row column : Nat} (rowInside : row < rows)
    (columnInside : column < columns) : row * columns + column < rows * columns := by
  calc row * columns + column
    _ < row * columns + columns := Nat.add_lt_add_left columnInside _
    _ = (row + 1) * columns := (Nat.succ_mul ..).symm
    _ ≤ rows * columns := Nat.mul_le_mul_right _ rowInside

/-- Every row and column of the shape has a cell. -/
theorem cell_inRange {row column : Nat} (hm : m.Complete) (rowInside : row < m.shape.rows)
    (columnInside : column < m.shape.columns) : InRange (m.cell row column) := by
  have inside : row * m.shape.columns + column < m.cells.size :=
    Nat.lt_of_lt_of_eq (position_lt rowInside columnInside) hm.symm
  rw [cell, Array.getElem?_eq_getElem inside]
  exact ok _

theorem mem_positions {shape : Shape} {row column : Nat}
    (member : (row, column) ∈ positions shape) : row < shape.rows ∧ column < shape.columns := by
  simpa [positions] using member

variable [Scalar α]

theorem complete_pow {n : Nat} (hm : m.Complete) (done : m.pow n = .ok r) : r.Complete := by
  unfold pow at done
  split at done
  · cases done
  · exact timesPower_keeps (fun _ _ _ _ _ done => (size_mul done).2) (size_identity _) hm done

/-- The rows of the right side are the columns of the left one. -/
theorem mul_inRange (ha : a.Complete) (hb : b.Complete) : InRange (a.mul b) := by
  unfold mul
  split
  · exact domain rfl
  rename_i agree
  refine bind (mapM ?_) fun _ _ => ok _
  rintro ⟨row, column⟩ member
  obtain ⟨rowInside, columnInside⟩ := mem_positions member
  refine foldlM (P := fun _ => True) ?_ (fun _ _ _ _ _ => trivial) trivial
  intro sum i member _
  have leftInside : i < a.shape.columns := List.mem_range.mp member
  have rightInside : i < b.shape.rows := Decidable.not_not.mp agree ▸ leftInside
  exact bind (cell_inRange ha rowInside leftInside) fun _ _ =>
    bind (cell_inRange hb rightInside columnInside) fun _ _ => ok _

theorem pow_inRange (hm : m.Complete) (n : Nat) : InRange (m.pow n) := by
  unfold pow
  split
  · exact domain rfl
  · exact power (fun _ _ => mul_inRange) (fun _ _ _ _ _ done => (size_mul done).2)
      (size_identity _) hm n

end Mat

/-! ### Operators -/

/-- Numbers and what can be called are complete in any case. -/
def Value.Complete : Value α → Prop
  | .number _ | .callable _ => True
  | .matrix m => m.Complete
  | .function p => p.Complete

theorem Value.WellFormed.complete {v : Value α} (h : v.WellFormed) : v.Complete := by
  cases v with
  | number | callable => trivial
  | matrix m => exact Mat.WellFormed.cells_size h
  | function p => exact Poly.WellFormed.size_pos h

theorem Value.asNumber_inRange (v : Value α) : InRange v.asNumber := by
  unfold Value.asNumber
  split
  · exact ok _
  · exact domain rfl

/-- Every way to make a matrix or a polynomial makes a complete one. -/
theorem Value.kept_complete [Scalar α] : Kept (Complete : Value α → Prop) where
  number _ := trivial
  ofCells done := (Mat.wellFormed_ofCells done).cells_size
  map f h := Mat.complete_map f h
  zipCells ha hb done := (Mat.size_zipCells ha hb done).2
  mulCells _ _ done := (Mat.size_mul done).2
  powCells := Mat.complete_pow
  scale factor h := Poly.complete_scale factor h
  zipLongest op hp _ := Poly.complete_zipLongest op hp
  addConstant _ := Poly.complete_addConstant
  mul _ _ := Poly.complete_mul
  pow := Poly.complete_pow
  derive _ := Poly.complete_ofList _
  integrate _ done := (Poly.wellFormed_integrate done).size_pos

theorem Operator.apply_inRange [Scalar α] (op : Operator) {lhs rhs : Value α} (hl : lhs.Complete)
    (hr : rhs.Complete) : InRange (op.apply lhs rhs) := by
  unfold apply
  split
  case h_4 | h_5 => exact map _ (Mat.zipCells_inRange _ _ _ _)
  case h_6 => exact map _ (Mat.mul_inRange hl hr)
  case h_11 => exact map _ (Poly.mul_inRange hl hr)
  case h_12 | h_13 => exact map _ (Poly.addConstant_inRange hl _)
  case h_16 => exact domain rfl
  all_goals exact ok _

/-! ### Calls -/

/-! The arity of an operation covers the arguments that it reads. -/

namespace Native

variable {args : List (Value Float)}

theorem silently_inRange {result : Except Fault (Value Float)} (h : InRange result) :
    InRange (silently result) :=
  bind h fun _ _ => ok _

theorem wholeExponent_inRange (x : Float) : InRange (wholeExponent x) := by
  unfold wholeExponent
  split
  · exact ok _
  · exact domain rfl

theorem raise_inRange {base : Value Float} (complete : base.Complete) (exponent : Float) :
    InRange (raise base exponent) := by
  unfold raise
  split
  · exact ok _
  · exact bind (wholeExponent_inRange _) fun n _ =>
      bind (Mat.pow_inRange complete n) fun _ _ => ok _
  · exact bind (wholeExponent_inRange _) fun n _ =>
      bind (Poly.pow_inRange complete n) fun _ _ => ok _
  · exact domain rfl

theorem applyCellwise_inRange (name : String) (given : 0 < args.length) :
    InRange (applyCellwise name args) := by
  unfold applyCellwise
  split
  · exact domain rfl
  · refine bind (entryAt_inRange given) fun v _ => ?_
    split
    · exact ok _
    · exact ok _
    · exact domain rfl

theorem deriveOf_inRange (given : 0 < args.length) : InRange (deriveOf args) := by
  refine bind (entryAt_inRange given) fun v _ => ?_
  split
  · exact ok _
  · exact domain rfl

theorem integrateOf_inRange (given : 0 < args.length) : InRange (integrateOf args) := by
  refine bind (entryAt_inRange given) fun v _ => ?_
  split
  · exact bind (Poly.integrate_inRange _) fun _ _ => ok _
  · exact domain rfl

theorem numberOf_inRange (f : Float → Float) (given : 0 < args.length) :
    InRange (numberOf f args) :=
  bind (entryAt_inRange given) fun v _ => bind v.asNumber_inRange fun _ _ => ok _

theorem binomialOf_inRange (given : 1 < args.length) : InRange (binomialOf args) :=
  bind (entryAt_inRange (Nat.lt_of_succ_lt given)) fun n _ => bind n.asNumber_inRange fun _ _ =>
    bind (entryAt_inRange given) fun k _ => bind k.asNumber_inRange fun _ _ => ok _

theorem powOf_inRange (complete : ∀ a ∈ args, a.Complete) (given : 1 < args.length) :
    InRange (powOf args) :=
  bind (entryAt_inRange given) fun v _ => bind v.asNumber_inRange fun exponent _ =>
    bind (entryAt_inRange (Nat.lt_of_succ_lt given)) fun base found =>
      raise_inRange (complete base (entryAt_mem found)) exponent

theorem printAll_inRange (args : List (Value Float)) : InRange (printAll args) := by
  unfold printAll
  split
  · exact ok _
  · exact domain rfl

theorem call_inRange {operation : Native} (accepted : operation.arity.accepts args.length = true)
    (complete : ∀ a ∈ args, a.Complete) : InRange (operation.call args) := by
  have one (given : args.length == 1) : 0 < args.length := by
    rw [beq_iff_eq.mp given]
    exact Nat.one_pos
  have two (given : args.length == 2) : 1 < args.length := by
    rw [beq_iff_eq.mp given]
    exact Nat.lt_succ_self 1
  cases operation with
  | print => exact printAll_inRange args
  | derive => exact silently_inRange (deriveOf_inRange (one accepted))
  | integrate => exact silently_inRange (integrateOf_inRange (one accepted))
  | binomial => exact silently_inRange (binomialOf_inRange (two accepted))
  | pow => exact silently_inRange (powOf_inRange complete (two accepted))
  | fact | sin | cos | tan => exact silently_inRange (numberOf_inRange _ (one accepted))
  | sqrt | floor | ceiling | round =>
      exact silently_inRange (applyCellwise_inRange _ (one accepted))

end Native

namespace Constructor

theorem dimension_inRange (x : Float) : InRange (dimension x) := by
  unfold dimension
  split
  · exact ok _
  · exact domain rfl

/-- There are as many generic arguments as the family reads. -/
theorem bind_inRange (c : Constructor) (generics : List Float) : InRange (c.bind generics) := by
  have shaped (shape : Shape) : InRange
      (if cellLimit ≤ shape.size then .error (.invalidDimensions (.tooLarge shape))
        else pure { c with dimensions := some shape }) := by
    split
    · exact domain rfl
    · exact ok _
  unfold Constructor.bind
  split
  · exact domain rfl
  split
  · exact domain rfl
  rename_i count
  have given : generics.length = c.family.dimensionCount := Decidable.not_not.mp count
  have one : 0 < generics.length := by
    rw [given]
    cases c.family <;> decide
  refine FaultsIn.bind (entryAt_inRange one) fun _ _ =>
    FaultsIn.bind (dimension_inRange _) fun rows _ => ?_
  dsimp only
  split
  · rename_i matrix
    have two : 1 < generics.length := by
      rw [given, matrix]
      decide
    exact FaultsIn.bind (entryAt_inRange two) fun _ _ =>
      FaultsIn.bind (dimension_inRange _) fun columns _ => shaped ⟨rows, columns⟩
  · exact shaped ⟨rows, 1⟩

theorem construct_inRange (c : Constructor) (args : List (Value Float)) :
    InRange (c.construct args) := by
  unfold construct
  split
  · exact domain rfl
  split
  · exact domain rfl
  · exact FaultsIn.bind (mapM fun v _ => v.asNumber_inRange) fun _ _ =>
      FaultsIn.bind (Mat.ofCells_inRange _ _) fun _ _ => ok _

end Constructor

namespace Callable

theorem specialize_inRange (c : Callable Float) (generics : List Float) :
    InRange (c.specialize generics) := by
  unfold specialize
  split
  · exact bind (Constructor.bind_inRange _ _) fun _ _ => ok _
  · exact domain rfl

/-- A call on complete arguments is in range, whatever the callee is. -/
theorem invoke_inRange (c : Callable Float) {args : List (Value Float)}
    (complete : ∀ a ∈ args, a.Complete) : InRange (c.invoke args) := by
  unfold invoke
  split
  · split
    · rename_i accepted
      exact Native.call_inRange accepted complete
    · exact domain rfl
  · split
    · exact domain rfl
    · rename_i count
      refine Native.silently_inRange (Native.numberOf_inRange _ ?_)
      rw [Decidable.not_not.mp count]
      exact Nat.one_pos
  · exact Native.silently_inRange (Constructor.construct_inRange _ _)

end Callable

/-! ### Lambdas -/

/-- Room is made for the power before its term is added. -/
theorem Lambda.add_inRange (l : Lambda) (coefficient : Float) (power : Nat) :
    InRange (l.add coefficient power) := by
  refine bind (addAt_inRange _ ?_) fun _ _ => ok _
  rw [Array.size_append, Array.size_replicate]
  omega

theorem powerOf_inRange (x : Float) : InRange (powerOf x) := by
  unfold powerOf
  split
  · exact domain rfl
  · exact bind (checkDegree_inRange _) fun _ _ => ok _

end PolyCalc
