import PolyCalc.Env
import PolyCalc.Proofs.Kept

/-!
Well-formed values.

A matrix has at least one row and one column and all its cells; a polynomial has
at least one coefficient and no more than the degree limit allows; what can be
called is one of the things every program starts with. The operators and calls
keep values well-formed (`Operator.apply_wellFormed`, `Callable.invoke_wellFormed`),
each by the checks it makes itself: a product by the degree of its result, an
antiderivative by that of its argument, a power before it starts.
-/

namespace PolyCalc

/-! ### Polynomials -/

namespace Poly

variable {α : Type}

/-- At least one coefficient, and at most one for each power up to the limit. -/
structure WellFormed (p : Poly α) : Prop where
  size_pos : 1 ≤ p.coefficients.length
  size_le : p.coefficients.length ≤ maxDegree + 1

/-- A degree that passes the check is within the limit. -/
theorem checkDegree_ok {degree : Nat} {u : Unit} (ok : checkDegree degree = .ok u) :
    degree ≤ maxDegree := by
  unfold checkDegree at ok
  split at ok
  · cases ok
  · rename_i within
    exact Nat.le_of_not_lt within

theorem addAt_size [Add α] {cs cs' : Array α} {i : Nat} {c : α} (ok : addAt cs i c = .ok cs') :
    cs'.size = cs.size := by
  unfold addAt at ok
  split at ok
  · cases ok
    exact Array.size_set ..
  · cases ok

variable [Scalar α]

/-- A polynomial gets a coefficient even from the empty list. -/
theorem wellFormed_ofList {cs : List α} (le : cs.length ≤ maxDegree + 1) :
    (ofList cs).WellFormed := by
  cases cs with
  | nil => exact ⟨Nat.le_refl 1, Nat.le_add_left 1 maxDegree⟩
  | cons c cs => exact ⟨Nat.le_add_left 1 _, le⟩

/-- A derivative is no longer than its polynomial, and not empty. -/
theorem wellFormed_derive {p : Poly α} (h : p.WellFormed) : p.derive.WellFormed := by
  have le := h.size_le
  apply wellFormed_ofList
  simp only [List.length_map, List.length_drop, List.length_zipIdx]
  omega

/-- The degree of the argument is checked, and the antiderivative is longer by one. -/
theorem wellFormed_integrate {p q : Poly α} (ok : p.integrate = .ok q) : q.WellFormed := by
  obtain ⟨_, within, ok⟩ := bind_ok ok
  have le : p.coefficients.length ≤ maxDegree := checkDegree_ok within
  cases ok
  constructor
  · exact Nat.le_add_left 1 _
  · simpa using le

theorem length_zipLongest (op : α → α → α) (as bs : List α) :
    (zipLongest op as bs).length = max as.length bs.length := by
  fun_induction zipLongest op as bs with
  | case1 => rfl
  | case2 a as ih => simp [ih]
  | case3 b bs ih => simp [ih]
  | case4 a as b bs ih => simp [ih]

/-- A sum or difference is as long as the longer of its two sides. -/
theorem wellFormed_zipLongest (op : α → α → α) {p q : Poly α} (hp : p.WellFormed)
    (hq : q.WellFormed) : (⟨zipLongest op p.coefficients q.coefficients⟩ : Poly α).WellFormed := by
  have length := length_zipLongest op p.coefficients q.coefficients
  constructor
  · exact length ▸ Nat.le_trans hp.size_pos (Nat.le_max_left ..)
  · exact length ▸ Nat.max_le.mpr ⟨hp.size_le, hq.size_le⟩

theorem wellFormed_addConstant {p q : Poly α} {c : α} (h : p.WellFormed)
    (ok : p.addConstant c = .ok q) : q.WellFormed := by
  unfold addConstant at ok
  split at ok
  · cases ok
  · rename_i c₀ cs shape
    cases ok
    have le := h.size_le
    rw [shape] at le
    exact ⟨Nat.le_add_left 1 _, le⟩

theorem wellFormed_scale {p : Poly α} (factor : α) (h : p.WellFormed) :
    (p.scale factor).WellFormed := by
  constructor
  · simpa [scale] using h.size_pos
  · simpa [scale] using h.size_le

/-- The limit holds by the check of the product alone. -/
theorem wellFormed_mul {p q r : Poly α} (ok : p.mul q = .ok r) : r.WellFormed := by
  unfold mul at ok
  split at ok
  · rename_i top _
    obtain ⟨_, within, ok⟩ := bind_ok ok
    obtain ⟨cs, collected, ok⟩ := bind_ok ok
    cases ok
    have le := checkDegree_ok within
    have size : cs.size = top + 1 := by
      refine foldlM_keeps (P := fun cs => cs.size = top + 1) ?_ ?_ collected
      · intro cs term cs' size added
        rw [addAt_size added, size]
      · exact Array.size_replicate
    constructor
    · simp [size]
    · simpa [size] using le
  · cases ok

theorem wellFormed_pow {p q : Poly α} {n : Nat} (h : p.WellFormed) (ok : p.pow n = .ok q) :
    q.WellFormed := by
  unfold pow at ok
  split at ok
  · obtain ⟨_, -, ok⟩ := bind_ok ok
    refine timesPower_keeps (fun _ _ _ _ _ => wellFormed_mul) ?_ h ok
    exact ⟨Nat.le_refl 1, Nat.le_add_left 1 maxDegree⟩
  · cases ok

end Poly

/-! ### Matrices -/

namespace Mat

variable {α : Type}

/-- The three checks on dimensions and cells are the three parts of the invariant. -/
theorem wellFormed_ofCells {shape : Shape} {cells : List α} {m : Mat α}
    (ok : ofCells shape cells = .ok m) : m.WellFormed := by
  unfold ofCells at ok
  split at ok
  · cases ok
  split at ok
  · cases ok
  split at ok
  · cases ok
  rename_i notEmpty _ count
  rw [not_or] at notEmpty
  cases ok
  exact ⟨Nat.pos_of_ne_zero notEmpty.1, Nat.pos_of_ne_zero notEmpty.2, Decidable.not_not.mp count⟩

theorem wellFormed_map (f : α → α) {m : Mat α} (h : m.WellFormed) : (m.map f).WellFormed :=
  ⟨h.rows_pos, h.columns_pos, (Array.size_map ..).trans h.cells_size⟩

/-- Cells are combined in pairs, and there are as many pairs as cells since the shapes
are the same. -/
theorem size_zipCells {verb : String} {op : α → α → α} {a b m : Mat α}
    (ha : a.cells.size = a.shape.size) (hb : b.cells.size = b.shape.size)
    (ok : zipCells verb op a b = .ok m) : m.shape = a.shape ∧ m.cells.size = m.shape.size := by
  unfold zipCells at ok
  split at ok
  · cases ok
  · rename_i sameShape
    cases ok
    refine ⟨rfl, ?_⟩
    rw [Array.size_zipWith, ha, hb, Decidable.not_not.mp sameShape, Nat.min_self]

theorem wellFormed_zipCells {verb : String} {op : α → α → α} {a b m : Mat α}
    (ha : a.WellFormed) (hb : b.WellFormed) (ok : zipCells verb op a b = .ok m) :
    m.WellFormed := by
  obtain ⟨shape, size⟩ := size_zipCells ha.cells_size hb.cells_size ok
  exact ⟨shape ▸ ha.rows_pos, shape ▸ ha.columns_pos, size⟩

theorem length_positions (shape : Shape) : (positions shape).length = shape.size := by
  simp [positions, Shape.size, List.length_flatMap, List.map_const']

variable [Scalar α]

/-- A product has one cell for each position of its shape. -/
theorem size_mul {a b m : Mat α} (ok : a.mul b = .ok m) :
    m.shape = ⟨a.shape.rows, b.shape.columns⟩ ∧ m.cells.size = m.shape.size := by
  unfold mul at ok
  split at ok
  · cases ok
  · obtain ⟨cells, collected, ok⟩ := bind_ok ok
    cases ok
    exact ⟨rfl, (mapM_ok_length collected).trans (length_positions _)⟩

theorem wellFormed_mul {a b m : Mat α} (ha : a.WellFormed) (hb : b.WellFormed)
    (ok : a.mul b = .ok m) : m.WellFormed := by
  obtain ⟨shape, size⟩ := size_mul ok
  exact ⟨shape ▸ ha.rows_pos, shape ▸ hb.columns_pos, size⟩

theorem size_identity (n : Nat) :
    (identity n : Mat α).cells.size = (identity n : Mat α).shape.size := by
  simp only [identity, List.size_toArray, List.length_map, length_positions]

/-- There is an identity for every positive dimension. -/
theorem wellFormed_identity {n : Nat} (positive : 0 < n) : (identity n : Mat α).WellFormed :=
  ⟨positive, positive, size_identity n⟩

theorem wellFormed_pow {m r : Mat α} {n : Nat} (h : m.WellFormed) (ok : m.pow n = .ok r) :
    r.WellFormed := by
  unfold pow at ok
  split at ok
  · cases ok
  · exact timesPower_keeps (fun _ _ _ => wellFormed_mul) (wellFormed_identity h.rows_pos) h ok

end Mat

/-! ### Values -/

/-- One of the things that can be called in every program from the start: a
native operation, or a constructor that has not been given dimensions. -/
def Callable.IsInitial {α : Type} : Callable α → Prop
  | .native operation => operation ∈ Native.output ++ Native.algebra
  | .constructor k => ∃ family ∈ Env.families, k = .unbound family
  | .polynomial _ => False

/-- There are no other native operations. -/
theorem Native.mem_operations (operation : Native) :
    operation ∈ Native.output ++ Native.algebra := by
  cases operation <;> decide

namespace Value

variable {α : Type}

/-- Numbers are always well-formed, and what can be called is what there is from the start. -/
def WellFormed : Value α → Prop
  | .number _ => True
  | .matrix m => m.WellFormed
  | .function p => p.WellFormed
  | .callable c => c.IsInitial

end Value

/-- Every way to make a matrix or a polynomial makes a well-formed one. -/
theorem Value.kept_wellFormed {α : Type} [Scalar α] : Kept (WellFormed : Value α → Prop) where
  number _ := trivial
  ofCells := Mat.wellFormed_ofCells
  map f h := Mat.wellFormed_map f h
  zipCells := Mat.wellFormed_zipCells
  mulCells := Mat.wellFormed_mul
  powCells := Mat.wellFormed_pow
  scale factor h := Poly.wellFormed_scale factor h
  zipLongest op hp hq := Poly.wellFormed_zipLongest op hp hq
  addConstant := Poly.wellFormed_addConstant
  mul _ _ := Poly.wellFormed_mul
  pow := Poly.wellFormed_pow
  derive h := Poly.wellFormed_derive h
  integrate _ := Poly.wellFormed_integrate

/-- Whatever two well-formed values combine to is well-formed. -/
theorem Operator.apply_wellFormed {α : Type} [Scalar α] {op : Operator} {lhs rhs v : Value α}
    (hl : lhs.WellFormed) (hr : rhs.WellFormed) (ok : op.apply lhs rhs = .ok v) :
    v.WellFormed :=
  Value.kept_wellFormed.apply hl hr ok

/-- The value of the answer and everything it prints are well-formed. -/
structure Answer.WellFormed (a : Answer) : Prop where
  value : a.value.WellFormed
  printed : ∀ v ∈ a.printed, v.WellFormed

/-- Whatever a call on well-formed arguments answers is well-formed. -/
theorem Callable.invoke_wellFormed {c : Callable Float} {args : List (Value Float)}
    {answer : Answer} (sound : ∀ a ∈ args, a.WellFormed) (ok : c.invoke args = .ok answer) :
    answer.WellFormed := by
  obtain ⟨value, printed⟩ := Value.kept_wellFormed.invoke sound ok
  exact ⟨value, printed⟩

end PolyCalc
