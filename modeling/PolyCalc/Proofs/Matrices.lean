import Mathlib.Algebra.BigOperators.Fin
import Mathlib.Data.Matrix.Mul
import PolyCalc.Proofs.Grid
import PolyCalc.Proofs.Ring
import PolyCalc.Proofs.Squaring

/-!
Matrices over a commutative ring.

Every complete matrix is the table of a matrix of the ring (`Complete.exists_matrix`), and
sums, products and identities of tables are tables of sums, products and identities. The
laws of products are then those of the ring, as far as there are products at all, which the
shapes decide alone.

Main statements: the laws of products with their failures (`product_laws`), and powers as
products of equal factors (`pow_factors`).
-/

namespace PolyCalc.Mat

/-! ### Shapes -/

section

variable {α : Type} [Scalar α] {a b c m : Mat α}

theorem mul_shapes (done : a.mul b = .ok m) :
    a.shape.columns = b.shape.rows ∧ m.shape = ⟨a.shape.rows, b.shape.columns⟩ := by
  refine ⟨?_, (size_mul done).1⟩
  by_contra disagree
  rw [mul_mismatch disagree] at done
  cases done

theorem add_shapes (ha : a.Complete) (hb : b.Complete) (done : a.add b = .ok m) :
    a.shape = b.shape ∧ m.shape = a.shape := by
  refine ⟨?_, (size_zipCells ha hb done).1⟩
  by_contra disagree
  rw [add, zipCells, if_pos disagree] at done
  cases done

theorem mul_mul_shapes (done : (do (← a.mul b).mul c) = .ok m) :
    a.shape.columns = b.shape.rows ∧ b.shape.columns = c.shape.rows := by
  obtain ⟨ab, product, done⟩ := bind_ok done
  obtain ⟨first, shape⟩ := mul_shapes product
  have second := (mul_shapes done).1
  rw [shape] at second
  exact ⟨first, second⟩

theorem mul_add_shapes (hb : b.Complete) (hc : c.Complete)
    (done : (do a.mul (← b.add c)) = .ok m) :
    b.shape = c.shape ∧ a.shape.columns = b.shape.rows := by
  obtain ⟨sum, added, done⟩ := bind_ok done
  obtain ⟨same, shape⟩ := add_shapes hb hc added
  have agree := (mul_shapes done).1
  rw [shape] at agree
  exact ⟨same, agree⟩

/-- The only fault is that shapes do not go together. -/
abbrev OfShapes (x : Except Fault (Mat α)) : Prop :=
  FaultsIn (fun fault => ∃ cause, fault = .dimensionMismatch cause) x

theorem mul_ofShapes (ha : a.Complete) (hb : b.Complete) : OfShapes (a.mul b) := by
  intro fault failed
  exact ⟨_, ((mul_error_iff ha hb fault).mp failed).2⟩

theorem add_ofShapes (a b : Mat α) : OfShapes (a.add b) := by
  unfold add zipCells
  split
  · exact .error ⟨_, rfl⟩
  · exact .ok _

end

/-! ### The table of a matrix -/

section

variable {R : Type} [CommRing R] [Div R] [Mod R] {rows columns n : Nat}

/-- The matrix with the entries of one of the ring. -/
def ofMatrix (M : Matrix (Fin rows) (Fin columns) R) : Mat R :=
  tabulate ⟨rows, columns⟩ fun r c =>
    if h : r < rows ∧ c < columns then M ⟨r, h.1⟩ ⟨c, h.2⟩ else 0

theorem complete_ofMatrix (M : Matrix (Fin rows) (Fin columns) R) : (ofMatrix M).Complete :=
  complete_tabulate ..

@[simp] theorem entry_ofMatrix (M : Matrix (Fin rows) (Fin columns) R) (r : Fin rows)
    (c : Fin columns) : (ofMatrix M).entry r c = M r c := by
  rw [ofMatrix, entry_tabulate r.isLt c.isLt, dif_pos ⟨r.isLt, c.isLt⟩]

/-- A table is that of a matrix with the same entries. -/
theorem tabulate_eq {f : Nat → Nat → R} {M : Matrix (Fin rows) (Fin columns) R}
    (same : ∀ r c, f r.val c.val = M r c) : tabulate ⟨rows, columns⟩ f = ofMatrix M := by
  apply tabulate_congr
  intro r c row column
  rw [dif_pos ⟨row, column⟩]
  exact same ⟨r, row⟩ ⟨c, column⟩

theorem Complete.exists_matrix {m : Mat R} (hm : m.Complete) :
    ∃ rows columns, ∃ M : Matrix (Fin rows) (Fin columns) R, m = ofMatrix M := by
  refine ⟨m.shape.rows, m.shape.columns, Matrix.of fun r c => m.entry r c, ?_⟩
  exact hm.tabulate_entry.symm.trans (tabulate_eq fun r c => rfl)

theorem identity_eq (n : Nat) : identity n = ofMatrix (1 : Matrix (Fin n) (Fin n) R) := by
  refine tabulate_eq (f := fun r c => if r = c then (1 : R) else 0) ?_
  intro r c
  simp [Matrix.one_apply, Fin.ext_iff]

theorem add_ofMatrix (M N : Matrix (Fin rows) (Fin columns) R) :
    (ofMatrix M).add (ofMatrix N) = .ok (ofMatrix (M + N)) := by
  rw [add, zipCells_eq (complete_ofMatrix M) (complete_ofMatrix N) rfl]
  exact congrArg _ (tabulate_eq fun r c => by simp)

theorem dot_ofMatrix (M : Matrix (Fin rows) (Fin n) R) (N : Matrix (Fin n) (Fin columns) R)
    (r : Fin rows) (c : Fin columns) : (ofMatrix M).dot (ofMatrix N) r c = (M * N) r c := by
  have summed : (ofMatrix M).dot (ofMatrix N) r c =
      ∑ i ∈ Finset.range n, (ofMatrix M).entry r i * (ofMatrix N).entry i c :=
    List.sum_eq_foldl.symm
  rw [summed, Finset.sum_range, Matrix.mul_apply]
  simp only [entry_ofMatrix]

theorem mul_ofMatrix (M : Matrix (Fin rows) (Fin n) R) (N : Matrix (Fin n) (Fin columns) R) :
    (ofMatrix M).mul (ofMatrix N) = .ok (ofMatrix (M * N)) := by
  rw [mul_eq (complete_ofMatrix M) (complete_ofMatrix N) rfl]
  exact congrArg _ (tabulate_eq (dot_ofMatrix M N))

/-! ### Laws of products -/

variable {a b c m : Mat R}

/-- Where neighbours fit, products may be grouped in any way. -/
theorem mul_mul_ok (ha : a.Complete) (hb : b.Complete) (hc : c.Complete)
    (first : a.shape.columns = b.shape.rows) (second : b.shape.columns = c.shape.rows) :
    ∃ m, (do (← a.mul b).mul c) = .ok m ∧ (do a.mul (← b.mul c)) = .ok m := by
  obtain ⟨rows, k, A, rfl⟩ := ha.exists_matrix
  obtain ⟨k', l, B, rfl⟩ := hb.exists_matrix
  obtain ⟨l', columns, C, rfl⟩ := hc.exists_matrix
  obtain rfl : k = k' := first
  obtain rfl : l = l' := second
  refine ⟨ofMatrix (A * (B * C)), ?_, ?_⟩
  · rw [mul_ofMatrix, ← Matrix.mul_assoc]
    exact mul_ofMatrix (A * B) C
  · rw [mul_ofMatrix]
    exact mul_ofMatrix A (B * C)

/-- Both ways to multiply three matrices want the same of their shapes. -/
theorem mul_mul_ok_iff (ha : a.Complete) (hb : b.Complete) (hc : c.Complete) :
    (do (← a.mul b).mul c) = .ok m ↔ (do a.mul (← b.mul c)) = .ok m := by
  constructor
  · intro done
    obtain ⟨first, second⟩ := mul_mul_shapes done
    obtain ⟨m', left, right⟩ := mul_mul_ok ha hb hc first second
    rwa [← left, done] at right
  · intro done
    obtain ⟨bc, product, outer⟩ := bind_ok done
    obtain ⟨second, shape⟩ := mul_shapes product
    have first := (mul_shapes outer).1
    rw [shape] at first
    obtain ⟨m', left, right⟩ := mul_mul_ok ha hb hc first second
    rwa [← right, done] at left

/-- Where a sum of one shape fits, it may be multiplied term by term. -/
theorem mul_add_ok (ha : a.Complete) (hb : b.Complete) (hc : c.Complete)
    (same : b.shape = c.shape) (agree : a.shape.columns = b.shape.rows) :
    ∃ m, (do a.mul (← b.add c)) = .ok m ∧ (do (← a.mul b).add (← a.mul c)) = .ok m := by
  obtain ⟨rows, k, A, rfl⟩ := ha.exists_matrix
  obtain ⟨k', columns, B, rfl⟩ := hb.exists_matrix
  obtain ⟨k'', columns', C, rfl⟩ := hc.exists_matrix
  obtain ⟨rfl, rfl⟩ : k' = k'' ∧ columns = columns' := Shape.mk.inj same
  obtain rfl : k = k' := agree
  refine ⟨ofMatrix (A * (B + C)), ?_, ?_⟩
  · rw [add_ofMatrix]
    exact mul_ofMatrix A (B + C)
  · rw [mul_ofMatrix, mul_ofMatrix, Matrix.mul_add]
    exact add_ofMatrix (A * B) (A * C)

theorem identity_mul (ha : a.Complete) : (identity a.shape.rows).mul a = .ok a := by
  obtain ⟨rows, columns, A, rfl⟩ := ha.exists_matrix
  have product := mul_ofMatrix (1 : Matrix (Fin rows) (Fin rows) R) A
  rw [Matrix.one_mul, ← identity_eq] at product
  exact product

theorem mul_identity (ha : a.Complete) : a.mul (identity a.shape.columns) = .ok a := by
  obtain ⟨rows, columns, A, rfl⟩ := ha.exists_matrix
  have product := mul_ofMatrix A (1 : Matrix (Fin columns) (Fin columns) R)
  rw [Matrix.mul_one, ← identity_eq] at product
  exact product

end

/-- Over a commutative ring, three matrices have a product if and only if neighbours fit, and
it is the same from the left and from the right. A sum is multiplied if and only if its
shapes are the same and fit, and the product is the sum of the products. Identities change
nothing. Whatever fails, fails for shapes that do not go together. -/
theorem product_laws {R : Type} [CommRing R] [Div R] [Mod R] {a b c : Mat R} (ha : a.WellFormed)
    (hb : b.WellFormed) (hc : c.WellFormed) :
    ((∃ m, (do (← a.mul b).mul c) = .ok m) ↔
      a.shape.columns = b.shape.rows ∧ b.shape.columns = c.shape.rows) ∧
    (∀ m, (do (← a.mul b).mul c) = .ok m ↔ (do a.mul (← b.mul c)) = .ok m) ∧
    ((∃ m, (do a.mul (← b.add c)) = .ok m) ↔
      b.shape = c.shape ∧ a.shape.columns = b.shape.rows) ∧
    (∀ m, (do a.mul (← b.add c)) = .ok m → (do (← a.mul b).add (← a.mul c)) = .ok m) ∧
    (∀ computation ∈ [do (← a.mul b).mul c, do a.mul (← b.mul c), do a.mul (← b.add c)],
      OfShapes computation) ∧
    (identity a.shape.rows).mul a = .ok a ∧ a.mul (identity a.shape.columns) = .ok a := by
  have ca : a.Complete := ha.cells_size
  have cb : b.Complete := hb.cells_size
  have cc : c.Complete := hc.cells_size
  refine ⟨⟨?_, ?_⟩, ?_, ⟨?_, ?_⟩, ?_, ?_, identity_mul ca, mul_identity ca⟩
  · rintro ⟨m, done⟩
    exact mul_mul_shapes done
  · rintro ⟨first, second⟩
    obtain ⟨m, done, -⟩ := mul_mul_ok ca cb cc first second
    exact ⟨m, done⟩
  · intro m
    exact mul_mul_ok_iff ca cb cc
  · rintro ⟨m, done⟩
    exact mul_add_shapes cb cc done
  · rintro ⟨same, agree⟩
    obtain ⟨m, done, -⟩ := mul_add_ok ca cb cc same agree
    exact ⟨m, done⟩
  · intro m done
    obtain ⟨same, agree⟩ := mul_add_shapes cb cc done
    obtain ⟨m', product, sum⟩ := mul_add_ok ca cb cc same agree
    rwa [← product, done] at sum
  · simp only [List.forall_mem_cons, List.not_mem_nil, false_implies, implies_true, and_true]
    refine ⟨?_, ?_, ?_⟩
    · exact .bind (mul_ofShapes ca cb) fun ab product => mul_ofShapes (size_mul product).2 cc
    · exact .bind (mul_ofShapes cb cc) fun bc product => mul_ofShapes ca (size_mul product).2
    · exact .bind (add_ofShapes b c) fun sum added => mul_ofShapes ca (size_zipCells cb cc added).2

/-- A row and two square matrices of integers: their product, and the row times their sum. -/
theorem product_laws_integers :
    let a : Mat ℤ := ⟨⟨1, 2⟩, #[1, 2]⟩
    let b : Mat ℤ := ⟨⟨2, 2⟩, #[3, 4, 5, 6]⟩
    let c : Mat ℤ := ⟨⟨2, 2⟩, #[0, 1, -1, 7]⟩
    (∃ m, (do (← a.mul b).mul c) = .ok m ∧ (do a.mul (← b.mul c)) = .ok m) ∧
    (∃ m, (do a.mul (← b.add c)) = .ok m ∧ (do (← a.mul b).add (← a.mul c)) = .ok m) ∧
    (identity 1).mul a = .ok a ∧ a.mul (identity 2) = .ok a := by
  intro a b c
  obtain ⟨fits, associative, sumFits, distributive, -, neutral⟩ :=
    product_laws (a := a) (b := b) (c := c) ⟨by decide, by decide, rfl⟩
      ⟨by decide, by decide, rfl⟩ ⟨by decide, by decide, rfl⟩
  refine ⟨?_, ?_, neutral⟩
  · obtain ⟨m, done⟩ := fits.mpr ⟨rfl, rfl⟩
    exact ⟨m, done, (associative m).mp done⟩
  · obtain ⟨m, done⟩ := sumFits.mpr ⟨rfl, rfl⟩
    exact ⟨m, done, distributive m done⟩

/-! ### Powers -/

section

variable {α : Type} {a b m : Mat α}

/-- A complete matrix with `n` rows and `n` columns. -/
def Square (n : Nat) (m : Mat α) : Prop := m.Complete ∧ m.shape = ⟨n, n⟩

theorem Complete.square (hm : m.Complete) (square : m.shape.rows = m.shape.columns) :
    m.Square m.shape.rows :=
  ⟨hm, congrArg (Shape.mk m.shape.rows) square.symm⟩

variable [Scalar α]

theorem pow_notSquare (notSquare : m.shape.rows ≠ m.shape.columns) (n : Nat) :
    m.pow n = .error (.dimensionMismatch (.notSquare m.shape)) :=
  if_pos notSquare

theorem pow_eq (square : m.shape.rows = m.shape.columns) (n : Nat) :
    m.pow n = timesPower mul (identity m.shape.rows) m n :=
  if_neg (not_not_intro square)

theorem square_identity (n : Nat) : (identity n : Mat α).Square n := ⟨size_identity n, rfl⟩

/-- Square matrices of one size can always be multiplied. -/
theorem Square.mul {n : Nat} (ha : a.Square n) (hb : b.Square n) :
    ∃ c, a.mul b = .ok c ∧ c.Square n := by
  have agree : a.shape.columns = b.shape.rows := by rw [ha.2, hb.2]
  refine ⟨_, mul_eq ha.1 hb.1 agree, complete_tabulate .., ?_⟩
  rw [shape_tabulate, ha.2, hb.2]

theorem Square.pow {n : Nat} (hm : m.Square n) (exponent : Nat) :
    ∃ r, m.pow exponent = .ok r ∧ r.Square n := by
  have keeps : ∀ a b c : Mat α, a.Square n → b.Square n → a.mul b = .ok c → c.Square n := by
    intro a b c ha hb done
    obtain ⟨c', product, hc⟩ := ha.mul hb
    cases done.symm.trans product
    exact hc
  have never : FaultsIn (fun _ => False) (timesPower Mat.mul (identity n) m exponent) := by
    refine FaultsIn.power (fun a b ha hb => ?_) keeps (square_identity n) hm exponent
    obtain ⟨c, product, -⟩ := ha.mul hb
    rw [product]
    exact .ok c
  obtain ⟨r, done⟩ := never.total
  refine ⟨r, ?_, timesPower_keeps keeps (square_identity n) hm done⟩
  rw [pow_eq (by rw [hm.2]), hm.2]
  exact done

end

section

variable {R : Type} [CommRing R] [Div R] [Mod R] {n : Nat}

theorem pow_ofMatrix (M : Matrix (Fin n) (Fin n) R) (exponent : Nat) :
    (ofMatrix M).pow exponent = .ok (ofMatrix (M ^ exponent)) := by
  have power := timesPower_eq ofMatrix mul_ofMatrix 1 M exponent
  rw [← identity_eq, one_mul] at power
  rw [pow_eq rfl]
  exact power

/-- The product of some factors one by one, after what is there already. -/
theorem foldlM_ofMatrix (N M : Matrix (Fin n) (Fin n) R) (count : Nat) :
    (List.replicate count (ofMatrix M)).foldlM mul (ofMatrix N) =
      .ok (ofMatrix (N * M ^ count)) := by
  induction count generalizing N with
  | zero =>
      rw [pow_zero, mul_one]
      rfl
  | succ count ih =>
      rw [List.replicate_succ, List.foldlM_cons, mul_ofMatrix, pow_succ', ← mul_assoc]
      exact ih (N * M)

theorem Complete.exists_square {m : Mat R} (hm : m.Complete)
    (square : m.shape.rows = m.shape.columns) :
    ∃ n, ∃ M : Matrix (Fin n) (Fin n) R, m = ofMatrix M := by
  obtain ⟨rows, columns, M, rfl⟩ := hm.exists_matrix
  obtain rfl : rows = columns := square
  exact ⟨rows, M, rfl⟩

theorem pow_eq_foldlM {m : Mat R} (hm : m.Complete) (square : m.shape.rows = m.shape.columns)
    (exponent : Nat) :
    m.pow exponent = (List.replicate exponent m).foldlM mul (identity m.shape.rows) := by
  obtain ⟨n, M, rfl⟩ := hm.exists_square square
  have product := foldlM_ofMatrix 1 M exponent
  rw [one_mul, ← identity_eq] at product
  exact (pow_ofMatrix M exponent).trans product.symm

/-- What is not square has no power, and neither side of the law has one. -/
theorem pow_sum {m : Mat R} (hm : m.Complete) (j k : Nat) :
    m.pow (j + k) = (do (← m.pow j).mul (← m.pow k)) := by
  by_cases square : m.shape.rows = m.shape.columns
  · obtain ⟨n, M, rfl⟩ := hm.exists_square square
    rw [pow_ofMatrix, pow_ofMatrix, pow_ofMatrix, pow_add]
    exact (mul_ofMatrix (M ^ j) (M ^ k)).symm
  · rw [pow_notSquare square, pow_notSquare square]
    rfl

end

/-- A power fails if and only if the matrix is not square, and has its shape otherwise. Over
a commutative ring it is the product of its factors one by one, after the identity, and
exponents add up in products. -/
theorem pow_factors :
    (∀ (α : Type) [Scalar α] (m : Mat α) (n : Nat), m.WellFormed →
      (∀ fault, m.pow n = .error fault ↔
        m.shape.rows ≠ m.shape.columns ∧ fault = .dimensionMismatch (.notSquare m.shape)) ∧
      (m.shape.rows = m.shape.columns → ∃ r, m.pow n = .ok r ∧ r.WellFormed ∧ r.shape = m.shape)) ∧
    ∀ (R : Type) [CommRing R] [Div R] [Mod R] (m : Mat R), m.WellFormed →
      (m.shape.rows = m.shape.columns → ∀ n,
        m.pow n = (List.replicate n m).foldlM mul (identity m.shape.rows)) ∧
      ∀ j k, m.pow (j + k) = (do (← m.pow j).mul (← m.pow k)) := by
  refine ⟨fun α _ m n hm => ⟨fun fault => ⟨?_, ?_⟩, ?_⟩, fun R _ _ _ m hm => ⟨?_, ?_⟩⟩
  · intro failed
    by_cases square : m.shape.rows = m.shape.columns
    · obtain ⟨r, done, -⟩ := (Complete.square hm.cells_size square).pow n
      cases failed.symm.trans done
    · rw [pow_notSquare square] at failed
      exact ⟨square, (Except.error.inj failed).symm⟩
  · rintro ⟨notSquare, rfl⟩
    exact pow_notSquare notSquare n
  · intro square
    have base := Complete.square hm.cells_size square
    obtain ⟨r, done, -, shape⟩ := base.pow n
    exact ⟨r, done, wellFormed_pow hm done, shape.trans base.2.symm⟩
  · exact pow_eq_foldlM hm.cells_size
  · exact pow_sum hm.cells_size

/-- Powers of a matrix of Fibonacci numbers, and a row that has none. -/
theorem pow_factors_fibonacci :
    let m : Mat ℤ := ⟨⟨2, 2⟩, #[1, 1, 1, 0]⟩
    m.pow 3 = [m, m, m].foldlM mul (identity 2) ∧ (∃ r, m.pow 1000 = .ok r ∧ r.shape = ⟨2, 2⟩) ∧
    m.pow (600 + 400) = (do (← m.pow 600).mul (← m.pow 400)) ∧
    pow (⟨⟨1, 2⟩, #[1, 1]⟩ : Mat ℤ) 3 = .error (.dimensionMismatch (.notSquare ⟨1, 2⟩)) := by
  intro m
  have hm : m.WellFormed := ⟨by decide, by decide, rfl⟩
  obtain ⟨product, sum⟩ := pow_factors.2 ℤ m hm
  obtain ⟨r, done, -, shape⟩ := (pow_factors.1 ℤ m 1000 hm).2 rfl
  refine ⟨product rfl 3, ⟨r, done, shape⟩, sum 600 400, ?_⟩
  refine ((pow_factors.1 ℤ ⟨⟨1, 2⟩, #[1, 1]⟩ 3 ⟨by decide, by decide, rfl⟩).1 _).mpr ⟨?_, rfl⟩
  decide

end PolyCalc.Mat
