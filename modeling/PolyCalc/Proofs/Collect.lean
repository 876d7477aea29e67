import PolyCalc.Proofs.Complete

/-!
Terms collected by their powers.

Products and the bodies of lambdas add their terms to a list of coefficients, one after
the other. A coefficient is then the sum of the terms of its power, from zero on and in
the order in which they come (`sumAt`), and the list has such a sum for every power
(`collect`). Nothing is assumed about the scalars, so the order of the sums counts.

Main statement: a product checks the sum of the degrees and then collects the products of
all pairs of coefficients (`Poly.mul_eq`).
-/

namespace PolyCalc

variable {α : Type}

theorem checkDegree_of_le {degree : Nat} (within : degree ≤ maxDegree) :
    checkDegree degree = .ok () := by
  rw [checkDegree, if_neg (Nat.not_lt.mpr within)]

theorem checkDegree_of_lt {degree : Nat} (past : maxDegree < degree) :
    checkDegree degree = .error (.degreeLimit degree) := by
  rw [checkDegree, if_pos past]

/-- The highest power that has a coefficient. -/
def Poly.top (p : Poly α) : Nat := p.size - 1

theorem Poly.Complete.size_eq {p : Poly α} (hp : p.Complete) : p.size = p.top + 1 := by
  unfold Complete at hp
  simp only [top, size]
  omega

theorem Poly.Complete.sizes {p q : Poly α} (hp : p.Complete) (hq : q.Complete) :
    p.size + q.size = p.top + q.top + 2 := by
  rw [hp.size_eq, hq.size_eq]
  omega

variable [Scalar α]

/-! ### Sums by power -/

/-- The sum of the terms of one power, in their order. -/
def sumAt (terms : List (Nat × α)) (power : Nat) : α :=
  ((terms.filter fun t => t.1 = power).map Prod.snd).foldl (· + ·) 0

/-- The coefficients of the powers below `size`. -/
def collect (size : Nat) (terms : List (Nat × α)) : List α := (List.range size).map (sumAt terms)

@[simp] theorem length_collect (size : Nat) (terms : List (Nat × α)) :
    (collect size terms).length = size := by
  simp [collect]

/-- Before any term is collected. -/
theorem collect_nil (size : Nat) : (collect size [] : List α) = List.replicate size 0 := by
  have zero : (sumAt [] : Nat → α) = fun _ => 0 := rfl
  rw [collect, zero, List.map_const', List.length_range]

/-- One more term is added last, and counts for its own power only. -/
theorem sumAt_concat (terms : List (Nat × α)) (i : Nat) (c : α) (power : Nat) :
    sumAt (terms ++ [(i, c)]) power =
      if i = power then sumAt terms power + c else sumAt terms power := by
  by_cases same : i = power
  · simp [sumAt, same]
  · simp [sumAt, same]

theorem sumAt_eq_zero {terms : List (Nat × α)} {power : Nat}
    (missing : ∀ t ∈ terms, t.1 ≠ power) : sumAt terms power = 0 := by
  have empty : (terms.filter fun t => t.1 = power) = [] := by
    simpa [List.filter_eq_nil_iff] using missing
  rw [sumAt, empty]
  rfl

/-- To add a term at its power is to collect it after the others. -/
theorem addAt_collect {size i : Nat} (inside : i < size) (terms : List (Nat × α)) (c : α) :
    addAt (collect size terms).toArray i c =
      .ok (collect size (terms ++ [(i, c)])).toArray := by
  have fits : i < (collect size terms).toArray.size := by simpa using inside
  rw [addAt, dif_pos fits]
  congr 1
  apply Array.ext'
  apply List.ext_getElem
  · simp
  · intro power _ _
    by_cases same : i = power
    · subst same
      simp [collect, sumAt_concat]
    · simp [collect, sumAt_concat, same]

/-- Terms that fit are collected one after the other. -/
theorem foldlM_addAt {size : Nat} {terms : List (Nat × α)} (inside : ∀ t ∈ terms, t.1 < size)
    (sofar : List (Nat × α)) :
    terms.foldlM (fun cs t => addAt cs t.1 t.2) (collect size sofar).toArray =
      .ok (collect size (sofar ++ terms)).toArray := by
  induction terms generalizing sofar with
  | nil =>
      rw [List.append_nil]
      rfl
  | cons t terms ih =>
      obtain ⟨first, rest⟩ := List.forall_mem_cons.mp inside
      have more := ih rest (sofar ++ [t])
      rw [← List.append_cons] at more
      rw [List.foldlM_cons, addAt_collect first]
      exact more

/-! ### Products -/

namespace Poly

variable {p q r : Poly α} {degree : Nat}

/-- The coefficient of a power. A missing one is zero. -/
def coeff (p : Poly α) (power : Nat) : α := p.coefficients.getD power 0

/-- The degree is checked first, and then the products of all pairs of coefficients are
collected. -/
theorem mul_eq (sizes : p.size + q.size = degree + 2) :
    p.mul q = checkDegree degree >>= fun _ =>
      .ok ⟨collect (degree + 1) (productTerms p q)⟩ := by
  have inside : ∀ t ∈ productTerms p q, t.1 < degree + 1 := by
    intro t member
    have fits := productTerms_lt member
    omega
  have collected := foldlM_addAt inside []
  rw [collect_nil, List.nil_append, List.toArray_replicate] at collected
  unfold mul
  rw [sizes]
  refine congrArg (checkDegree degree >>= ·) (funext fun _ => ?_)
  exact congrArg (· >>= fun cs => pure (Poly.mk cs.toList)) collected

/-- Whatever a product is, it is collected from the products of coefficients. -/
theorem mul_cases (done : p.mul q = .ok r) :
    ∃ degree, p.size + q.size = degree + 2 ∧ degree ≤ maxDegree ∧
      r = ⟨collect (degree + 1) (productTerms p q)⟩ := by
  obtain ⟨degree, sizes⟩ : ∃ degree, p.size + q.size = degree + 2 := by
    unfold mul at done
    split at done
    · rename_i degree sizes
      exact ⟨degree, sizes⟩
    · cases done
  rw [mul_eq sizes] at done
  obtain ⟨_, within, done⟩ := bind_ok done
  cases done
  exact ⟨degree, sizes, checkDegree_ok within, rfl⟩

/-- A product within the limit succeeds. -/
theorem mul_ok (hp : p.Complete) (hq : q.Complete) (within : p.top + q.top ≤ maxDegree) :
    p.mul q = .ok ⟨collect (p.top + q.top + 1) (productTerms p q)⟩ := by
  rw [mul_eq (hp.sizes hq), checkDegree_of_le within]
  rfl

/-- The degrees of the factors add up, whatever the coefficients are. -/
theorem top_mul (hp : p.Complete) (hq : q.Complete) (done : p.mul q = .ok r) :
    r.top = p.top + q.top := by
  obtain ⟨degree, sizes, -, rfl⟩ := mul_cases done
  have same := hp.sizes hq
  have whole : (⟨collect (degree + 1) (productTerms p q)⟩ : Poly α).top = degree := by
    simp [top, size]
  omega

end Poly

end PolyCalc
