import Mathlib.Algebra.BigOperators.Ring.Finset
import Mathlib.Algebra.EuclideanDomain.Field
import Mathlib.Algebra.Field.Rat
import PolyCalc.Operator.Apply
import PolyCalc.Proofs.Ring

/-!
Operators on functions, value by value.

Whatever an operator makes of a function and a function or number is a function again,
and its value at any place is the operator applied to the values there. A number counts
as the function that has it as its value everywhere, though the operators do not make it
one: they change the constant term or all coefficients. In a ring these ways around are
as good as the way through constants.
-/

namespace PolyCalc

/-- The value of a function at `x`, or of a number as a constant function. -/
def Value.at? {α : Type} [Scalar α] (x : α) : Value α → Option α
  | .number c => some c
  | .function p => some (p.eval x)
  | .matrix _ | .callable _ => none

namespace Operator

section

variable {α : Type} [Scalar α]

/-- All ways in which an operator makes a function. -/
inductive Builds : Operator → Value α → Value α → Poly α → Prop where
  | scaleRight {c p} : Builds .multiply (.number c) (.function p) (p.scale c)
  | add {p q} : Builds .add (.function p) (.function q) (p.add q)
  | subtract {p q} : Builds .subtract (.function p) (.function q) (p.sub q)
  | multiply {p q h} : p.mul q = .ok h → Builds .multiply (.function p) (.function q) h
  | addNumber {p c h} : p.addConstant c = .ok h → Builds .add (.function p) (.number c) h
  | subtractNumber {p c h} : p.addConstant (-c) = .ok h →
      Builds .subtract (.function p) (.number c) h
  | scale {p c} : Builds .multiply (.function p) (.number c) (p.scale c)
  | divide {p c} : Builds .divide (.function p) (.number c) (p.scale (1 / c))

theorem apply_builds {op : Operator} {lhs rhs : Value α} {h : Poly α}
    (done : op.apply lhs rhs = .ok (.function h)) : Builds op lhs rhs h := by
  unfold apply at done
  split at done
  case h_3 => cases done; exact .scaleRight
  case h_9 => cases done; exact .add
  case h_10 => cases done; exact .subtract
  case h_11 =>
      obtain ⟨_, product, same⟩ := map_ok done
      cases same
      exact .multiply product
  case h_12 =>
      obtain ⟨_, sum, same⟩ := map_ok done
      cases same
      exact .addNumber sum
  case h_13 =>
      obtain ⟨_, sum, same⟩ := map_ok done
      cases same
      exact .subtractNumber sum
  case h_14 => cases done; exact .scale
  case h_15 => cases done; exact .divide
  case h_4 | h_5 | h_6 =>
      obtain ⟨_, -, same⟩ := map_ok done
      cases same
  all_goals cases done

/-- A function and a number can be combined by all operators but the remainder. -/
theorem apply_number {op : Operator} (defined : op ∈ [add, subtract, multiply, divide])
    {p : Poly α} (hp : p.Complete) (c : α) :
    ∃ h, op.apply (.function p) (.number c) = .ok (.function h) := by
  have sum (c : α) : ∃ h, p.addConstant c = .ok h := by
    obtain ⟨_ | ⟨c₀, cs⟩⟩ := p
    · cases hp
    · exact ⟨_, rfl⟩
  obtain ⟨plus, added⟩ := sum c
  obtain ⟨minus, subtracted⟩ := sum (-c)
  cases op with
  | add => exact ⟨plus, congrArg (Value.function <$> ·) added⟩
  | subtract => exact ⟨minus, congrArg (Value.function <$> ·) subtracted⟩
  | multiply | divide => exact ⟨_, rfl⟩
  | modulo => simp at defined

/-- Two functions can be added, subtracted, and multiplied within the limit. -/
theorem apply_functions_iff {op : Operator} (defined : op ∈ [add, subtract, multiply])
    {p q : Poly α} (hp : p.Complete) (hq : q.Complete) :
    (∃ h, op.apply (.function p) (.function q) = .ok (.function h)) ↔
      (op = .multiply → p.top + q.top ≤ maxDegree) := by
  cases op with
  | add | subtract => exact ⟨fun _ product => (nomatch product), fun _ => ⟨_, rfl⟩⟩
  | multiply =>
      constructor
      · rintro ⟨h, done⟩ -
        obtain ⟨h, product, -⟩ := map_ok done
        obtain ⟨degree, sizes, within, -⟩ := Poly.mul_cases product
        rw [hp.sizes hq] at sizes
        omega
      · intro within
        exact ⟨_, congrArg (Value.function <$> ·) (Poly.mul_ok hp hq (within rfl))⟩
  | divide | modulo => simp at defined

end

end Operator

/-! ### Values of sums and products -/

namespace Poly

variable {R : Type} [CommRing R] [Div R] [Mod R]

/-- Horner's rule gives the sum of the terms. -/
theorem eval_eq_sum (p : Poly R) (x : R) :
    p.eval x = ∑ i ∈ Finset.range p.size, p.coeff i * x ^ i := by
  obtain ⟨cs⟩ := p
  induction cs with
  | nil => rfl
  | cons c cs ih =>
      have horner : Poly.eval ⟨c :: cs⟩ x = Poly.eval ⟨cs⟩ x * x + c := rfl
      have shifted (i : Nat) : Poly.coeff ⟨c :: cs⟩ (i + 1) = Poly.coeff ⟨cs⟩ i := rfl
      have sizes : Poly.size ⟨c :: cs⟩ = Poly.size ⟨cs⟩ + 1 := rfl
      rw [sizes, Finset.sum_range_succ', horner, ih, Finset.sum_mul]
      simp only [shifted, pow_succ, pow_zero, mul_one, mul_assoc]
      rfl

theorem eval_add (p q : Poly R) (x : R) : (p.add q).eval x = p.eval x + q.eval x := by
  simp only [← eval_toPolynomial, toPolynomial_add, Polynomial.eval_add]

theorem eval_sub (p q : Poly R) (x : R) : (p.sub q).eval x = p.eval x - q.eval x := by
  simp only [← eval_toPolynomial, toPolynomial_sub, Polynomial.eval_sub]

theorem eval_scale (p : Poly R) (factor x : R) : (p.scale factor).eval x = p.eval x * factor := by
  simp only [← eval_toPolynomial, toPolynomial_scale, Polynomial.eval_mul, Polynomial.eval_C]

theorem eval_mul {p q r : Poly R} (done : p.mul q = .ok r) (x : R) :
    r.eval x = p.eval x * q.eval x := by
  simp only [← eval_toPolynomial, toPolynomial_mul done, Polynomial.eval_mul]

theorem eval_addConstant {p r : Poly R} {c : R} (done : p.addConstant c = .ok r) (x : R) :
    r.eval x = p.eval x + c := by
  obtain ⟨_ | ⟨c₀, cs⟩⟩ := p
  · cases done
  · cases done
    show Poly.eval ⟨cs⟩ x * x + (c₀ + c) = Poly.eval ⟨cs⟩ x * x + c₀ + c
    rw [add_assoc]

/-! ### Numbers as constant functions -/

/-- Past its end a constant adds nothing. -/
theorem zipLongest_nil {op : R → R → R} (zero : ∀ a, op a 0 = a) (as : List R) :
    zipLongest op as [] = as := by
  induction as with
  | nil => rw [zipLongest]
  | cons a as ih => rw [zipLongest, zero, ih]

theorem addConstant_eq {p : Poly R} (hp : p.Complete) (c : R) :
    p.addConstant c = .ok (p.add (constant c)) := by
  obtain ⟨_ | ⟨c₀, cs⟩⟩ := p
  · cases hp
  · rw [add, constant, zipLongest, zipLongest_nil add_zero]
    rfl

theorem addConstant_neg {p : Poly R} (hp : p.Complete) (c : R) :
    p.addConstant (-c) = .ok (p.sub (constant c)) := by
  obtain ⟨_ | ⟨c₀, cs⟩⟩ := p
  · cases hp
  · rw [sub, constant, zipLongest, zipLongest_nil sub_zero, sub_eq_add_neg]
    rfl

/-- The product with a constant is the multiple, but its degree is checked. -/
theorem mul_constant {p : Poly R} (hp : p.Complete) (c : R) :
    p.mul (constant c) = checkDegree p.top >>= fun _ => .ok (p.scale c) := by
  have sizes : p.size + (constant c).size = p.top + 2 := by
    rw [hp.size_eq]
    rfl
  have inside : ∀ t ∈ productTerms p (constant c), t.1 < p.top + 1 := by
    intro t member
    have fits := productTerms_lt member
    omega
  have multiple : (⟨collect (p.top + 1) (productTerms p (constant c))⟩ : Poly R) = p.scale c := by
    apply eq_of_toPolynomial
    · simp [size, scale, ← hp.size_eq]
    · rw [toPolynomial_collect inside, sum_productTerms, toPolynomial_constant, toPolynomial_scale]
  rw [mul_eq sizes, multiple]

end Poly

/-! ### Operators -/

namespace Operator

section

variable {R : Type} [CommRing R] [Div R] [Mod R] {op : Operator} {lhs rhs : Value R} {h : Poly R}

/-- A function that an operator makes has the operator applied to the values as its
values. Of a quotient it has to be known that it is a multiple. -/
theorem Builds.pointwise (built : Builds op lhs rhs h)
    (quotient : op = .divide → ∀ a c : R, a * (1 / c) = a / c) (x : R) :
    ∃ a b, lhs.at? x = some a ∧ rhs.at? x = some b ∧ h.eval x = op.onScalars a b := by
  cases built with
  | scaleRight =>
      rw [Poly.eval_scale, mul_comm]
      exact ⟨_, _, rfl, rfl, rfl⟩
  | add => exact ⟨_, _, rfl, rfl, Poly.eval_add ..⟩
  | subtract => exact ⟨_, _, rfl, rfl, Poly.eval_sub ..⟩
  | multiply product => exact ⟨_, _, rfl, rfl, Poly.eval_mul product x⟩
  | addNumber sum => exact ⟨_, _, rfl, rfl, Poly.eval_addConstant sum x⟩
  | subtractNumber sum =>
      rw [Poly.eval_addConstant sum, ← sub_eq_add_neg]
      exact ⟨_, _, rfl, rfl, rfl⟩
  | scale => exact ⟨_, _, rfl, rfl, Poly.eval_scale ..⟩
  | divide =>
      rw [Poly.eval_scale, quotient rfl]
      exact ⟨_, _, rfl, rfl, rfl⟩

end

/-- Over a commutative ring: Horner's rule gives the sum of the terms. What `+`, `-` and `*`
make of a function and a function or number has the values they make of the values; they
fail for a product past the limit only. Numbers are taken as good as constant functions. Over
a field the same holds of `/` with a number other than zero. -/
theorem apply_pointwise :
    (∀ (R : Type) [CommRing R] [Div R] [Mod R],
      (∀ (p : Poly R) (x : R), p.eval x = ∑ i ∈ Finset.range p.size, p.coeff i * x ^ i) ∧
      (∀ op ∈ [add, subtract, multiply], ∀ (lhs rhs : Value R) (h : Poly R),
        op.apply lhs rhs = .ok (.function h) → ∀ x, ∃ a b,
          lhs.at? x = some a ∧ rhs.at? x = some b ∧ h.eval x = op.onScalars a b) ∧
      (∀ op ∈ [add, subtract, multiply], ∀ (p q : Poly R), p.Complete → q.Complete →
        ((∃ h, op.apply (.function p) (.function q) = .ok (.function h)) ↔
          (op = .multiply → p.top + q.top ≤ maxDegree))) ∧
      (∀ (p : Poly R) (c : R), p.Complete →
        (∀ op ∈ [add, subtract, multiply], ∃ h,
          op.apply (.function p) (.number c) = .ok (.function h)) ∧
        (∃ h, multiply.apply (.number c) (.function p) = .ok (.function h)) ∧
        p.addConstant c = .ok (p.add (.constant c)) ∧
        p.addConstant (-c) = .ok (p.sub (.constant c)) ∧
        p.mul (.constant c) = checkDegree p.top >>= fun _ => .ok (p.scale c))) ∧
    ∀ (K : Type) [Field K] [Mod K] (p : Poly K) (c : K), p.Complete → c ≠ 0 →
      ∃ h, divide.apply (.function p) (.number c) = .ok (.function h) ∧
        ∀ x, h.eval x = p.eval x / c := by
  refine ⟨fun R _ _ _ => ⟨Poly.eval_eq_sum, ?_, ?_, ?_⟩, ?_⟩
  · intro op ring lhs rhs h done x
    refine (apply_builds done).pointwise (fun division => ?_) x
    rw [division] at ring
    simp at ring
  · intro op ring p q hp hq
    exact apply_functions_iff ring hp hq
  · intro p c hp
    refine ⟨fun op ring => apply_number ?_ hp c, ⟨_, rfl⟩, Poly.addConstant_eq hp c,
      Poly.addConstant_neg hp c, Poly.mul_constant hp c⟩
    exact List.mem_append_left [divide] ring
  · intro K _ _ p c hp _
    have known : divide ∈ [add, subtract, multiply, divide] := by simp
    obtain ⟨h, done⟩ := apply_number known hp c
    refine ⟨h, done, fun x => ?_⟩
    obtain ⟨a, b, left, right, value⟩ :=
      (apply_builds done).pointwise (fun _ a c => mul_one_div a c) x
    cases left
    cases right
    exact value

/-- A product of functions with integers, and a function with fractions that is halved. -/
theorem apply_pointwise_integers :
    (∃ h : Poly ℤ, multiply.apply (.function ⟨[1, 2]⟩) (.function ⟨[0, 1, 3]⟩) = .ok (.function h) ∧
      h.eval 5 = Poly.eval ⟨[1, 2]⟩ (5 : ℤ) * Poly.eval ⟨[0, 1, 3]⟩ 5) ∧
    Poly.mul ⟨[1, 2]⟩ (.constant (3 : ℤ)) = .ok (Poly.scale ⟨[1, 2]⟩ 3) ∧
    ∃ h : Poly ℚ, divide.apply (.function ⟨[1, 6]⟩) (.number 2) = .ok (.function h) ∧
      h.eval 5 = Poly.eval ⟨[1, 6]⟩ (5 : ℚ) / 2 := by
  obtain ⟨-, pointwise, returns, numbers⟩ := apply_pointwise.1 ℤ
  refine ⟨?_, ?_, ?_⟩
  · obtain ⟨h, done⟩ := (returns multiply (by simp) ⟨[1, 2]⟩ ⟨[0, 1, 3]⟩
      (Poly.complete_ofList [1, 2]) (Poly.complete_ofList [0, 1, 3])).mpr fun _ => by decide
    obtain ⟨a, b, left, right, value⟩ := pointwise multiply (by simp) _ _ h done 5
    cases left
    cases right
    exact ⟨h, done, value⟩
  · exact (numbers ⟨[1, 2]⟩ 3 (Poly.complete_ofList [1, 2])).2.2.2.2
  · obtain ⟨h, done, value⟩ := apply_pointwise.2 ℚ ⟨[1, 6]⟩ 2 (Poly.complete_ofList [1, 6])
      (by decide)
    exact ⟨h, done, value 5⟩

end Operator

end PolyCalc
