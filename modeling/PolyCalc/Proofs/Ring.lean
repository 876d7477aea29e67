import Mathlib.Algebra.BigOperators.Ring.List
import Mathlib.Algebra.Polynomial.Derivative
import PolyCalc.Proofs.Collect

/-!
Polynomials over a commutative ring.

The elements of a commutative ring are scalars, and nothing is rounded (`Scalar.ofRing`).
A list of coefficients then stands for a polynomial of the ring (`Poly.toPolynomial`), with
the same coefficients and the same values. There is one equation for each operation, which
says what it does to that polynomial.
-/

namespace PolyCalc

open Polynomial

/-- The elements of a commutative ring. Quotients and remainders may be any. -/
instance (priority := low) Scalar.ofRing {R : Type} [CommRing R] [Div R] [Mod R] : Scalar R where
  seed := 0
  mulAdd a b c := a * b + c

namespace Poly

variable {R : Type} [CommRing R]

/-! ### The polynomial of a list -/

/-- The polynomial with the coefficients of a list. -/
noncomputable def ofCoefficients : List R → R[X]
  | [] => 0
  | c :: cs => C c + X * ofCoefficients cs

/-- What a polynomial stands for. -/
noncomputable def toPolynomial (p : Poly R) : R[X] := ofCoefficients p.coefficients

theorem coeff_ofCoefficients (cs : List R) (power : Nat) :
    (ofCoefficients cs).coeff power = cs.getD power 0 := by
  induction cs generalizing power with
  | nil => simp [ofCoefficients]
  | cons c cs ih =>
      cases power with
      | zero => simp [ofCoefficients]
      | succ power => simp [ofCoefficients, ih]

/-- The terms of a list, numbered from `n` on. -/
theorem sum_zipIdx (cs : List R) (n : Nat) :
    ((cs.zipIdx n).map fun t => monomial t.2 t.1).sum = X ^ n * ofCoefficients cs := by
  induction cs generalizing n with
  | nil => simp [ofCoefficients]
  | cons c cs ih =>
      rw [List.zipIdx_cons, List.map_cons, List.sum_cons, ih, ofCoefficients,
        ← C_mul_X_pow_eq_monomial]
      ring

/-- Two polynomials of one size that stand for the same are the same. -/
theorem eq_of_toPolynomial {p q : Poly R} (sizes : p.size = q.size)
    (same : p.toPolynomial = q.toPolynomial) : p = q := by
  obtain ⟨cs⟩ := p
  obtain ⟨ds⟩ := q
  congr 1
  apply List.ext_getElem sizes
  intro power left right
  have coefficients := congrArg (fun f : R[X] => f.coeff power) same
  simpa [toPolynomial, coeff_ofCoefficients, left, right] using coefficients

theorem toPolynomial_constant (c : R) : (constant c).toPolynomial = C c := by
  simp [toPolynomial, constant, ofCoefficients]

variable [Div R] [Mod R]

theorem coeff_toPolynomial (p : Poly R) (power : Nat) :
    p.toPolynomial.coeff power = p.coeff power :=
  coeff_ofCoefficients p.coefficients power

/-- Horner's rule gives the value of the polynomial. -/
theorem eval_toPolynomial (p : Poly R) (x : R) : p.toPolynomial.eval x = p.eval x := by
  obtain ⟨cs⟩ := p
  induction cs with
  | nil => exact eval_zero
  | cons c cs ih =>
      have horner : Poly.eval ⟨c :: cs⟩ x = Poly.eval ⟨cs⟩ x * x + c := rfl
      have split : toPolynomial ⟨c :: cs⟩ = C c + X * toPolynomial ⟨cs⟩ := rfl
      rw [horner, ← ih, split, eval_add, eval_C, eval_mul, eval_X]
      ring

/-! ### Sums and multiples -/

/-- Missing coefficients are zeros, so an operation that keeps zero goes on past the end. -/
theorem getD_zipLongest {op : R → R → R} (zero : op 0 0 = 0) (as bs : List R) (power : Nat) :
    (zipLongest op as bs).getD power 0 = op (as.getD power 0) (bs.getD power 0) := by
  fun_induction zipLongest op as bs generalizing power with
  | case1 => exact zero.symm
  | case2 a as ih | case3 b bs ih | case4 a as b bs ih =>
      cases power with
      | zero => rfl
      | succ power => exact ih power

theorem coeff_add (p q : Poly R) (power : Nat) :
    (p.add q).coeff power = p.coeff power + q.coeff power :=
  getD_zipLongest (add_zero 0) ..

theorem coeff_sub (p q : Poly R) (power : Nat) :
    (p.sub q).coeff power = p.coeff power - q.coeff power :=
  getD_zipLongest (sub_zero 0) ..

theorem toPolynomial_add (p q : Poly R) :
    (p.add q).toPolynomial = p.toPolynomial + q.toPolynomial := by
  ext power
  rw [Polynomial.coeff_add]
  simp only [coeff_toPolynomial, coeff_add]

theorem toPolynomial_sub (p q : Poly R) :
    (p.sub q).toPolynomial = p.toPolynomial - q.toPolynomial := by
  ext power
  rw [Polynomial.coeff_sub]
  simp only [coeff_toPolynomial, coeff_sub]

theorem toPolynomial_scale (p : Poly R) (factor : R) :
    (p.scale factor).toPolynomial = p.toPolynomial * C factor := by
  obtain ⟨cs⟩ := p
  induction cs with
  | nil => exact (zero_mul _).symm
  | cons c cs ih =>
      have split : (scale ⟨c :: cs⟩ factor).toPolynomial =
          C (c * factor) + X * (scale ⟨cs⟩ factor).toPolynomial := rfl
      rw [split, ih, C_mul, toPolynomial, toPolynomial, ofCoefficients]
      ring

/-! ### Products -/

/-- In a ring the terms of a power may be summed in any way. -/
theorem coeff_sum_monomial (terms : List (Nat × R)) (power : Nat) :
    ((terms.map fun t => monomial t.1 t.2).sum).coeff power = sumAt terms power := by
  have summed : sumAt terms power = ((terms.filter fun t => t.1 = power).map Prod.snd).sum :=
    List.sum_eq_foldl.symm
  rw [summed]
  clear summed
  induction terms with
  | nil => simp
  | cons t terms ih =>
      rw [List.map_cons, List.sum_cons, Polynomial.coeff_add, coeff_monomial, ih]
      by_cases same : t.1 = power
      · simp [same]
      · simp [same]

/-- Collected terms stand for their sum. -/
theorem toPolynomial_collect {size : Nat} {terms : List (Nat × R)}
    (inside : ∀ t ∈ terms, t.1 < size) :
    toPolynomial ⟨collect size terms⟩ = (terms.map fun t => monomial t.1 t.2).sum := by
  ext power
  rw [coeff_sum_monomial, coeff_toPolynomial]
  by_cases fits : power < size
  · simp [coeff, collect, fits]
  · have missing : sumAt terms power = 0 :=
      sumAt_eq_zero fun t member same => fits (same ▸ inside t member)
    simp [coeff, collect, fits, missing]

/-- The products of all pairs of terms sum up to the product of the two sums. -/
theorem sum_products (xs ys : List (R × Nat)) :
    ((xs.flatMap fun a => ys.map fun b => (a.2 + b.2, a.1 * b.1)).map fun t =>
        monomial t.1 t.2).sum =
      (xs.map fun a => monomial a.2 a.1).sum * (ys.map fun b => monomial b.2 b.1).sum := by
  induction xs with
  | nil => simp
  | cons a xs ih =>
      have first : ((ys.map fun b => (a.2 + b.2, a.1 * b.1)).map fun t => monomial t.1 t.2).sum =
          monomial a.2 a.1 * (ys.map fun b => monomial b.2 b.1).sum := by
        rw [List.map_map, ← List.sum_map_mul_left]
        simp only [monomial_mul_monomial, Function.comp_def]
      rw [List.flatMap_cons, List.map_append, List.sum_append, first, ih, List.map_cons,
        List.sum_cons, add_mul]

theorem sum_productTerms (p q : Poly R) :
    ((productTerms p q).map fun t => monomial t.1 t.2).sum = p.toPolynomial * q.toPolynomial := by
  have whole (cs : List R) :
      (cs.zipIdx.map fun t => monomial t.2 t.1).sum = ofCoefficients cs := by
    rw [sum_zipIdx, pow_zero, one_mul]
  rw [toPolynomial, toPolynomial, ← whole, ← whole]
  exact sum_products ..

theorem toPolynomial_mul {p q r : Poly R} (done : p.mul q = .ok r) :
    r.toPolynomial = p.toPolynomial * q.toPolynomial := by
  obtain ⟨degree, sizes, -, rfl⟩ := mul_cases done
  rw [toPolynomial_collect, sum_productTerms]
  intro t member
  have fits := productTerms_lt member
  omega

end Poly

end PolyCalc
