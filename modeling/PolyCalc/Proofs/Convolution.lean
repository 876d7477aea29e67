import PolyCalc.Proofs.Collect

/-!
Products of polynomials, coefficient by coefficient.

A product goes through the coefficients of the left side and adds the products with each of
the right side to the coefficients of their powers. Seen from one power, each coefficient of
the left side comes up once at most, with the one of the right side that makes up the power
(`terms_at`). A coefficient of the product is therefore a sum over the left side in
ascending order (`sumAt_productTerms`). Nothing is assumed about the scalars.
-/

namespace PolyCalc

/-! ### Choices of indices -/

/-- There is one number at most that makes up a sum. -/
theorem filter_range_add (size i power : Nat) :
    ((List.range size).filter fun j => i + j = power) =
      if i ≤ power ∧ power - i < size then [power - i] else [] := by
  by_cases reached : i ≤ power
  · have difference : ((List.range size).filter fun j => i + j = power) =
        (List.range size).filter fun j => j = power - i :=
      List.filter_congr fun j _ => decide_eq_decide.mpr (by omega)
    rw [difference, List.filter_eq, List.count_range]
    by_cases inside : power - i < size
    · rw [if_pos inside, if_pos ⟨reached, inside⟩, List.replicate_one]
    · rw [if_neg inside, if_neg (fun both => inside both.2), List.replicate_zero]
  · rw [if_neg (fun both => reached both.1), List.filter_eq_nil_iff]
    intro j _
    rw [decide_eq_true_iff]
    omega

/-- To go through a list and take up some items is to go through these. -/
theorem flatMap_select {β : Type} (chosen : Nat → Prop) [DecidablePred chosen] (f : Nat → β)
    (is : List Nat) :
    (is.flatMap fun i => if chosen i then [f i] else []) = (is.filter fun i => chosen i).map f := by
  induction is with
  | nil => rfl
  | cons i is ih =>
      rw [List.flatMap_cons, ih]
      by_cases taken : chosen i
      · simp [taken]
      · simp [taken]

namespace Poly

variable {α : Type} [Scalar α]

/-! ### Terms of a power -/

/-- The coefficients and their powers. -/
theorem zipIdx_coefficients (p : Poly α) :
    p.coefficients.zipIdx = (List.range p.size).map fun i => (p.coeff i, i) := by
  apply List.ext_getElem
  · simp [size]
  · intro i inside _
    rw [List.length_zipIdx] at inside
    simp [coeff, inside]

theorem productTerms_eq (p q : Poly α) :
    productTerms p q = (List.range p.size).flatMap fun i =>
      (List.range q.size).map fun j => (i + j, p.coeff i * q.coeff j) := by
  simp only [productTerms, zipIdx_coefficients, List.flatMap_map, List.map_map, Function.comp_def]

/-- A coefficient of the left side comes up once in a power, or not at all. -/
theorem terms_at (p q : Poly α) (i power : Nat) :
    (((List.range q.size).map fun j => (i + j, p.coeff i * q.coeff j)).filter fun t =>
        t.1 = power).map Prod.snd =
      if i ≤ power ∧ power - i < q.size then [p.coeff i * q.coeff (power - i)] else [] := by
  have selected := filter_range_add q.size i power
  rw [List.filter_map, List.map_map]
  simp only [Function.comp_def]
  rw [selected]
  split
  · rfl
  · rfl

/-- The sum for a power, by the coefficients of the left side. -/
theorem sumAt_productTerms (p q : Poly α) (power : Nat) :
    sumAt (productTerms p q) power =
      (((List.range p.size).filter fun i => i ≤ power ∧ power - i < q.size).map fun i =>
        p.coeff i * q.coeff (power - i)).foldl (· + ·) 0 := by
  rw [sumAt, productTerms_eq, List.filter_flatMap, List.map_flatMap]
  simp only [terms_at, flatMap_select]

/-! ### Products -/

variable {p q : Poly α}

theorem mul_error_iff (hp : p.Complete) (hq : q.Complete) (fault : Fault) :
    p.mul q = .error fault ↔
      maxDegree < p.top + q.top ∧ fault = .degreeLimit (p.top + q.top) := by
  constructor
  · intro failed
    by_cases past : maxDegree < p.top + q.top
    · rw [mul_eq (hp.sizes hq), checkDegree_of_lt past] at failed
      exact ⟨past, (Except.error.inj failed).symm⟩
    · rw [mul_ok hp hq (Nat.le_of_not_lt past)] at failed
      cases failed
  · rintro ⟨past, rfl⟩
    rw [mul_eq (hp.sizes hq), checkDegree_of_lt past]
    rfl

/-- A product fails if and only if the degrees add up to more than the limit, and reports
their sum. Otherwise it has a coefficient for every power up to that sum, which is the sum of
the products of coefficients whose powers add up to it, from zero on and by ascending power
of the left side. No coefficient that is missing is multiplied. -/
theorem mul_convolution {α : Type} [Scalar α] {p q : Poly α} (hp : p.Complete) (hq : q.Complete) :
    (∀ fault, p.mul q = .error fault ↔
      maxDegree < p.size + q.size - 2 ∧ fault = .degreeLimit (p.size + q.size - 2)) ∧
    (p.size + q.size - 2 ≤ maxDegree → ∃ r, p.mul q = .ok r ∧ r.size = p.size + q.size - 1 ∧
      ∀ k < r.size, r.coefficients[k]? = some
        ((((List.range p.size).filter fun i => i ≤ k ∧ k - i < q.size).map fun i =>
          p.coeff i * q.coeff (k - i)).foldl (· + ·) 0)) := by
  have sizes := hp.sizes hq
  have degree : p.size + q.size - 2 = p.top + q.top := by omega
  rw [degree]
  refine ⟨mul_error_iff hp hq, ?_⟩
  intro within
  have count : p.size + q.size - 1 = p.top + q.top + 1 := by omega
  refine ⟨_, mul_ok hp hq within, ?_, ?_⟩
  · rw [size, length_collect, count]
  · intro k inside
    rw [size, length_collect] at inside
    simp [collect, inside, sumAt_productTerms]

/-- Binary64 numbers show the order of a sum and that it starts from the positive zero. Two
polynomials of degree 513 have no product. -/
theorem mul_convolution_floats :
    (∃ r : Poly Float, mul ⟨[1e16, -1e16, 1]⟩ ⟨[1, 1, 1]⟩ = .ok r ∧ r.size = 5 ∧
      r.coefficients[2]? = some 1) ∧
    (∃ r : Poly Float, mul ⟨[-0.0]⟩ ⟨[1]⟩ = .ok r ∧ r.coefficients[0]? = some 0) ∧
    mul (⟨List.replicate 514 1⟩ : Poly Float) ⟨List.replicate 514 1⟩ =
      .error (.degreeLimit 1026) := by
  refine ⟨?_, ?_, ?_⟩
  · obtain ⟨r, product, size, cells⟩ := (mul_convolution (complete_ofList [1e16, -1e16, 1])
      (complete_ofList ([1, 1, 1] : List Float))).2 (by decide)
    refine ⟨r, product, size, ?_⟩
    rw [cells 2 (by rw [size]; decide)]
    decide +kernel
  · obtain ⟨r, product, size, cells⟩ := (mul_convolution (complete_ofList [-0.0])
      (complete_ofList ([1] : List Float))).2 (by decide)
    refine ⟨r, product, ?_⟩
    rw [cells 0 (by rw [size]; decide)]
    decide +kernel
  · have long : (⟨List.replicate 514 1⟩ : Poly Float).size = 514 := List.length_replicate
    have complete : (⟨List.replicate 514 1⟩ : Poly Float).Complete := by
      rw [Complete, List.length_replicate]
      decide
    refine ((mul_convolution complete complete).1 _).mpr ⟨?_, ?_⟩
    · rw [long]
      decide
    · rw [long]

end Poly

end PolyCalc
