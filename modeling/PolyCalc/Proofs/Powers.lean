import Mathlib.Algebra.Group.TypeTags.Basic
import PolyCalc.Proofs.Ring
import PolyCalc.Proofs.Squaring

/-!
Powers of polynomials.

The degree of a power is checked before anything is multiplied. The squares are made ahead
of need, so it has to be seen that none of them is past the limit although the power is
not: the degree of the result so far and that of the base, as many times as the rest of
the exponent says, add up to the degree of the power at every digit (`within_of_multiplies`).
Over a ring, the power is then the product of its factors one by one.
-/

namespace PolyCalc.Poly

section

variable {α : Type} [Scalar α] {p q result base a b : Poly α} {n : Nat}

theorem complete_constant (c : α) : (constant c).Complete := complete_ofList [c]

theorem pow_eq (hp : p.Complete) (n : Nat) :
    p.pow n = checkDegree (min (p.top * n) (Nat.pow 2 64 - 1)) >>= fun _ =>
      timesPower mul (constant 1) p n := by
  unfold pow
  rw [hp.size_eq]

/-! ### The products that come up -/

/-- The degree after a digit. -/
theorem top_digitProduct (hr : result.Complete) (hb : base.Complete)
    (digit : digitProduct mul result base n = .ok q) :
    q.Complete ∧ q.top = result.top + base.top * (n % 2) := by
  unfold digitProduct at digit
  split at digit
  · rename_i odd
    rw [odd, Nat.mul_one]
    exact ⟨complete_mul digit, top_mul hr hb digit⟩
  · rename_i even
    cases digit
    rw [Nat.mod_two_ne_one.mp even, Nat.mul_zero]
    exact ⟨hr, rfl⟩

/-- Every product that comes up on the way is within the limit if the power is. What is
left of the exponent always makes up for what the result lacks. -/
theorem within_of_multiplies (reached : Multiplies mul result base n a b) (hr : result.Complete)
    (hb : base.Complete) (limit : result.top + base.top * n ≤ maxDegree) :
    a.Complete ∧ b.Complete ∧ a.top + b.top ≤ maxDegree := by
  induction reached with
  | @digit result base n odd =>
      have once : base.top * 1 ≤ base.top * n := Nat.mul_le_mul_left _ (by omega)
      exact ⟨hr, hb, by omega⟩
  | @square result base n _ more _ =>
      have twice : base.top * 2 ≤ base.top * n := Nat.mul_le_mul_left _ (by omega)
      exact ⟨hb, hb, by omega⟩
  | @next result base n result' base' a b more digit squared _ ih =>
      obtain ⟨complete, top⟩ := top_digitProduct hr hb digit
      have double := top_mul hb hb squared
      have same : result'.top + base'.top * (n / 2) = result.top + base.top * n := by
        rw [top, double, ← Nat.two_mul, Nat.mul_comm 2, Nat.mul_assoc, Nat.add_assoc,
          ← Nat.mul_add, Nat.mod_add_div]
      exact ih complete (complete_mul squared) (same ▸ limit)

/-- Within the limit no product on the way to a power fails. -/
theorem mul_ok_of_multiplies (hp : p.Complete) (limit : p.top * n ≤ maxDegree)
    (reached : Multiplies mul (constant 1) p n a b) : ∃ c, a.mul b = .ok c := by
  obtain ⟨left, right, within⟩ := within_of_multiplies reached (complete_constant 1) hp
    ((Nat.zero_add _).trans_le limit)
  exact ⟨_, mul_ok left right within⟩

/-- A power within the limit has the degree that was checked. -/
theorem pow_ok (hp : p.Complete) (limit : p.top * n ≤ maxDegree) :
    ∃ q, p.pow n = .ok q ∧ timesPower mul (constant 1) p n = .ok q ∧ q.Complete ∧
      q.top = p.top * n := by
  obtain ⟨q, done⟩ := timesPower_ok_iff.mpr fun _ _ reached => mul_ok_of_multiplies hp limit reached
  -- Degrees add up in products, so they are multiplied in powers.
  obtain ⟨complete, degree⟩ := timesPower_pow Complete (fun p => Multiplicative.ofAdd p.top)
    (fun a b c ha hb product => ⟨complete_mul product, congrArg _ (top_mul ha hb product)⟩)
    (complete_constant 1) hp done
  have top : q.top = (constant (1 : α)).top + n * p.top := congrArg Multiplicative.toAdd degree
  refine ⟨q, ?_, done, complete, ?_⟩
  · rw [pow_eq hp, checkDegree_of_le (Nat.le_trans (Nat.min_le_left ..) limit)]
    exact done
  · rw [top, Nat.mul_comm n]
    exact Nat.zero_add _

/-- Past the limit nothing is multiplied at all. -/
theorem pow_error (hp : p.Complete) (past : maxDegree < p.top * n) :
    p.pow n = .error (.degreeLimit (min (p.top * n) (Nat.pow 2 64 - 1))) := by
  have large : maxDegree < Nat.pow 2 64 - 1 := by decide
  rw [pow_eq hp, checkDegree_of_lt (Nat.lt_min.mpr ⟨past, large⟩)]
  rfl

end

/-! ### Products of equal factors -/

section

variable {R : Type} [CommRing R] [Div R] [Mod R] {p q : Poly R} {n : Nat}

/-- The product of some factors one by one, after what is there already. -/
theorem foldlM_replicate {start : Poly R} (hs : start.Complete) (hp : p.Complete)
    (limit : start.top + p.top * n ≤ maxDegree) :
    ∃ q, (List.replicate n p).foldlM mul start = .ok q ∧ q.Complete ∧
      q.top = start.top + p.top * n ∧
      q.toPolynomial = start.toPolynomial * p.toPolynomial ^ n := by
  induction n generalizing start with
  | zero => exact ⟨start, rfl, hs, rfl, by rw [pow_zero, mul_one]⟩
  | succ n ih =>
      rw [Nat.mul_succ] at limit
      have product := mul_ok hs hp (by omega)
      have degree := top_mul hs hp product
      obtain ⟨q, done, complete, top, meaning⟩ := ih (complete_mul product) (by omega)
      refine ⟨q, ?_, complete, ?_, ?_⟩
      · rw [List.replicate_succ, List.foldlM_cons, product]
        exact done
      · rw [top, degree, Nat.mul_succ]
        omega
      · rw [meaning, toPolynomial_mul product, pow_succ', mul_assoc]

theorem pow_eq_foldlM (hp : p.Complete) (limit : p.top * n ≤ maxDegree) :
    p.pow n = (List.replicate n p).foldlM mul (constant 1) := by
  obtain ⟨q, done, squared, complete, degree⟩ := pow_ok hp limit
  have start : (constant (1 : R)).top + p.top * n = p.top * n := Nat.zero_add _
  obtain ⟨r, product, complete', degree', meaning⟩ :=
    foldlM_replicate (complete_constant 1) hp (start.trans_le limit)
  have power := (timesPower_pow Complete toPolynomial
    (fun _ _ _ _ _ product => ⟨complete_mul product, toPolynomial_mul product⟩)
    (complete_constant 1) hp squared).2
  have sizes : q.size = r.size := by
    rw [complete.size_eq, complete'.size_eq, degree, degree', start]
  rw [done, product, eq_of_toPolynomial sizes (power.trans meaning.symm)]

end

/-- A power fails if and only if its degree is past the limit, and no product on the way to
one within the limit does. Its degree is the exponent times that of the base. Over a
commutative ring it is the product of its factors one by one. -/
theorem pow_exact :
    (∀ (α : Type) [Scalar α] (p : Poly α) (n : Nat), p.Complete →
      ((∃ fault, p.pow n = .error fault) ↔ maxDegree < p.top * n) ∧
      (∀ fault, p.pow n = .error fault →
        fault = .degreeLimit (min (p.top * n) (Nat.pow 2 64 - 1))) ∧
      (p.top * n ≤ maxDegree →
        (∀ a b, Multiplies mul (constant 1) p n a b → ∃ c, a.mul b = .ok c) ∧
        ∃ q, p.pow n = .ok q ∧ q.size = p.top * n + 1)) ∧
    ∀ (R : Type) [CommRing R] [Div R] [Mod R] (p : Poly R) (n : Nat), p.Complete →
      p.top * n ≤ maxDegree → p.pow n = (List.replicate n p).foldlM mul (constant 1) := by
  refine ⟨fun α _ p n hp => ⟨⟨?_, ?_⟩, ?_, ?_⟩, fun R _ _ _ p n hp => pow_eq_foldlM hp⟩
  · rintro ⟨fault, failed⟩
    by_contra within
    obtain ⟨q, done, -⟩ := pow_ok hp (Nat.le_of_not_lt within)
    cases failed.symm.trans done
  · intro past
    exact ⟨_, pow_error hp past⟩
  · intro fault failed
    by_cases past : maxDegree < p.top * n
    · rw [pow_error hp past] at failed
      cases failed
      rfl
    · obtain ⟨q, done, -⟩ := pow_ok hp (Nat.le_of_not_lt past)
      cases failed.symm.trans done
  · intro within
    obtain ⟨q, done, -, complete, degree⟩ := pow_ok hp within
    refine ⟨fun a b => mul_ok_of_multiplies hp within, q, done, ?_⟩
    rw [complete.size_eq, degree]

/-- The highest power of `1 + x` that there is, a power past every count, and a cube. -/
theorem pow_exact_limit :
    (∃ q : Poly ℤ, pow ⟨[1, 1]⟩ 1024 = .ok q ∧ q.size = 1025) ∧
    pow (⟨[1, 0, 1]⟩ : Poly ℤ) (Nat.pow 2 63) = .error (.degreeLimit (Nat.pow 2 64 - 1)) ∧
    pow (⟨[1, 1]⟩ : Poly ℤ) 3 = [⟨[1, 1]⟩, ⟨[1, 1]⟩, ⟨[1, 1]⟩].foldlM mul (constant 1) := by
  refine ⟨?_, ?_, pow_exact.2 ℤ ⟨[1, 1]⟩ 3 (complete_ofList [1, 1]) (by decide)⟩
  · obtain ⟨-, -, within⟩ := pow_exact.1 ℤ ⟨[1, 1]⟩ 1024 (complete_ofList [1, 1])
    exact (within (by decide)).2
  · obtain ⟨fails, reports, -⟩ :=
      pow_exact.1 ℤ ⟨[1, 0, 1]⟩ (Nat.pow 2 63) (complete_ofList [1, 0, 1])
    obtain ⟨fault, failed⟩ := fails.mpr (by decide)
    rw [failed, reports fault failed]
    rfl

end PolyCalc.Poly
