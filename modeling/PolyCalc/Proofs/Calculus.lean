import Mathlib.Algebra.CharZero.Defs
import Mathlib.Algebra.EuclideanDomain.Field
import Mathlib.Algebra.Field.Rat
import PolyCalc.Proofs.Ring

/-!
Derivatives and antiderivatives.

A derivative drops the constant term and moves every other coefficient down by one power,
an antiderivative moves them all up. Over a field in which no count but zero is zero they
undo each other, but for the constant term. The derivative of a product follows the product
rule, whose two products are within the limit if the product is.
-/

namespace PolyCalc.Poly

section

variable {α : Type} [Scalar α]

theorem size_ofList (cs : List α) : (ofList cs).size = max 1 cs.length := by
  cases cs with
  | nil => rfl
  | cons c cs => exact (Nat.max_eq_right (Nat.le_add_left 1 _)).symm

/-- The zero that is made of no coefficients is what missing ones are read as. -/
theorem coeff_ofList (cs : List α) (power : Nat) : (ofList cs).coeff power = cs.getD power 0 := by
  cases cs with
  | nil => cases power <;> rfl
  | cons c cs => rfl

theorem complete_derive (p : Poly α) : p.derive.Complete := complete_ofList _

/-- One coefficient less, but at least one. -/
theorem size_derive (p : Poly α) : p.derive.size = max 1 (p.size - 1) := by
  rw [derive, size_ofList]
  simp [size]

theorem top_derive (p : Poly α) : p.derive.top ≤ p.top := by
  simp only [top, size_derive]
  omega

/-- The antiderivative, once its degree is checked. -/
theorem integrate_eq (p : Poly α) :
    p.integrate = checkDegree p.size >>= fun _ =>
      .ok ⟨0 :: p.coefficients.zipIdx.map fun t => t.1 / ((t.2 + 1 : Nat) : α)⟩ := rfl

theorem integrate_fails_iff (p : Poly α) :
    (∃ fault, p.integrate = .error fault) ↔ maxDegree < p.size := by
  rw [integrate_eq]
  constructor
  · rintro ⟨fault, failed⟩
    by_contra within
    rw [checkDegree_of_le (Nat.le_of_not_lt within)] at failed
    cases failed
  · intro past
    rw [checkDegree_of_lt past]
    exact ⟨_, rfl⟩

/-- Whatever an antiderivative is, its degree was checked. -/
theorem integrate_cases {p q : Poly α} (done : p.integrate = .ok q) :
    q = ⟨0 :: p.coefficients.zipIdx.map fun t => t.1 / ((t.2 + 1 : Nat) : α)⟩ := by
  rw [integrate_eq] at done
  obtain ⟨_, -, done⟩ := bind_ok done
  cases done
  rfl

end

section

variable {R : Type} [CommRing R] [Div R] [Mod R]

theorem coeff_derive (p : Poly R) (power : Nat) :
    p.derive.coeff power = p.coeff (power + 1) * (power + 1 : ℕ) := by
  rw [derive, coeff_ofList, coeff, List.getD_eq_getElem?_getD, List.getD_eq_getElem?_getD,
    List.getElem?_map, List.getElem?_drop, List.getElem?_zipIdx, Nat.add_comm 1]
  cases p.coefficients[power + 1]? with
  | none => exact (zero_mul _).symm
  | some c => simp

theorem toPolynomial_derive (p : Poly R) :
    p.derive.toPolynomial = Polynomial.derivative p.toPolynomial := by
  ext power
  rw [Polynomial.coeff_derivative, coeff_toPolynomial, coeff_toPolynomial, coeff_derive,
    Nat.cast_succ]

/-- The product rule. Derivatives are no longer than what they are derived from, so both
products are within the limit. -/
theorem derive_mul {p q : Poly R} (hp : p.Complete) (hq : q.Complete)
    (within : p.top + q.top ≤ maxDegree) :
    ∃ r u v, p.mul q = .ok r ∧ p.derive.mul q = .ok u ∧ p.mul q.derive = .ok v ∧
      r.derive.toPolynomial = (u.add v).toPolynomial := by
  have left := p.top_derive
  have right := q.top_derive
  have product := mul_ok hp hq within
  have first := mul_ok p.complete_derive hq (by omega)
  have second := mul_ok hp q.complete_derive (by omega)
  refine ⟨_, _, _, product, first, second, ?_⟩
  rw [toPolynomial_derive, toPolynomial_add, toPolynomial_mul product, toPolynomial_mul first,
    toPolynomial_mul second, toPolynomial_derive, toPolynomial_derive, Polynomial.derivative_mul]

end

/-! ### Fields -/

section

variable {K : Type} [Field K] [Mod K] {p q : Poly K}

theorem coeff_integrate (done : p.integrate = .ok q) (power : Nat) :
    q.coeff (power + 1) = p.coeff power / (power + 1 : ℕ) := by
  rw [integrate_cases done, coeff, coeff, List.getD_cons_succ, List.getD_eq_getElem?_getD,
    List.getD_eq_getElem?_getD, List.getElem?_map, List.getElem?_zipIdx]
  cases p.coefficients[power]? with
  | none => exact (zero_div _).symm
  | some c => simp

variable [CharZero K]

/-- Every coefficient of an antiderivative is multiplied by what it was divided by. -/
theorem derive_integrate (hp : p.Complete) (done : p.integrate = .ok q) : q.derive = p := by
  apply eq_of_toPolynomial
  · have grown : q.size = p.size + 1 := by
      rw [integrate_cases done]
      simp [size]
    rw [size_derive, grown]
    exact Nat.max_eq_right hp
  · ext power
    rw [coeff_toPolynomial, coeff_toPolynomial, coeff_derive, coeff_integrate done]
    exact div_mul_cancel₀ _ (Nat.cast_ne_zero.mpr (Nat.succ_ne_zero power))

/-- Every coefficient of a derivative is divided by what it was multiplied by. -/
theorem coeff_integrate_derive (done : p.derive.integrate = .ok q) (power : Nat) :
    q.coeff (power + 1) = p.coeff (power + 1) := by
  rw [coeff_integrate done, coeff_derive]
  exact mul_div_cancel_right₀ _ (Nat.cast_ne_zero.mpr (Nat.succ_ne_zero power))

end

/-- Over a field in which no count but zero is zero: an antiderivative fails if and only if
there are too many coefficients. Its derivative is the polynomial that it was taken of, and
an antiderivative of the derivative is the polynomial without its constant term. The derivative
of a product within the limit follows the product rule. -/
theorem calculus_laws (K : Type) [Field K] [CharZero K] [Mod K] :
    (∀ p : Poly K, (∃ fault, p.integrate = .error fault) ↔ maxDegree < p.size) ∧
    (∀ p q : Poly K, p.Complete → p.integrate = .ok q → q.derive.coefficients = p.coefficients) ∧
    (∀ p q : Poly K, p.derive.integrate = .ok q →
      q.coeff 0 = 0 ∧ ∀ power, q.coeff (power + 1) = p.coeff (power + 1)) ∧
    (∀ p q : Poly K, p.Complete → q.Complete → p.top + q.top ≤ maxDegree →
      ∃ r u v, p.mul q = .ok r ∧ p.derive.mul q = .ok u ∧ p.mul q.derive = .ok v ∧
        ∀ power, r.derive.coeff power = (u.add v).coeff power) := by
  refine ⟨integrate_fails_iff, ?_, ?_, ?_⟩
  · intro p q hp done
    rw [derive_integrate hp done]
  · intro p q done
    refine ⟨?_, coeff_integrate_derive done⟩
    rw [integrate_cases done]
    rfl
  · intro p q hp hq within
    obtain ⟨r, u, v, product, first, second, same⟩ := derive_mul hp hq within
    refine ⟨r, u, v, product, first, second, fun power => ?_⟩
    rw [← coeff_toPolynomial, same, coeff_toPolynomial]

/-- An antiderivative and back, a derivative and back, and the product rule at the limit. -/
theorem calculus_laws_fractions :
    (∃ q : Poly ℚ, integrate ⟨[2, 6]⟩ = .ok q ∧ q.derive.coefficients = [2, 6]) ∧
    (∃ q : Poly ℚ, (derive ⟨[5, 2, 6]⟩).integrate = .ok q ∧ q.coeff 0 = 0 ∧ q.coeff 2 = 6) ∧
    ∃ r u v : Poly ℚ, mul ⟨List.replicate 1024 1⟩ ⟨[0, 1]⟩ = .ok r ∧
      (derive ⟨List.replicate 1024 1⟩).mul ⟨[0, 1]⟩ = .ok u ∧
      mul ⟨List.replicate 1024 1⟩ (derive ⟨[0, 1]⟩) = .ok v ∧
      r.derive.coeff 7 = (u.add v).coeff 7 := by
  obtain ⟨-, undone, redone, product⟩ := calculus_laws ℚ
  refine ⟨⟨_, rfl, undone ⟨[2, 6]⟩ _ (complete_ofList [2, 6]) rfl⟩, ?_, ?_⟩
  · obtain ⟨constant, same⟩ := redone ⟨[5, 2, 6]⟩ _ rfl
    exact ⟨_, rfl, constant, same 1⟩
  · have complete : Complete (⟨List.replicate 1024 1⟩ : Poly ℚ) := by
      rw [Complete, List.length_replicate]
      decide
    have within : top (⟨List.replicate 1024 1⟩ : Poly ℚ) + top (⟨[0, 1]⟩ : Poly ℚ) ≤ maxDegree := by
      rw [top, size, List.length_replicate]
      decide
    obtain ⟨r, u, v, done, first, second, same⟩ :=
      product ⟨List.replicate 1024 1⟩ ⟨[0, 1]⟩ complete (complete_ofList [0, 1]) within
    exact ⟨r, u, v, done, first, second, same 7⟩

end PolyCalc.Poly
