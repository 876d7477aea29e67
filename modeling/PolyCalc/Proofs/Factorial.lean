import Mathlib.Logic.Function.Iterate
import PolyCalc.Call
import PolyCalc.Proofs.Number.Operations

/-!
The loop of the factorial.

The loop has two variables, the next factor and the product so far (`Product`). The factor
need not decrease: above `2 ^ 53` a number less one is the number itself. What carries the
argument is the product. While the loop goes on for another round, the factor is at least two,
since a smaller one is followed by a factor of at most one; so the product doubles, if it does
not become infinite and ends the loop (`Product.doubles`). By induction it is at least `2 ^ k`
after `k` rounds, and no number reaches `2 ^ 1024` (`Product.grows`).
-/

namespace PolyCalc

/-! ### Products and differences -/

namespace Number

open Float.Model (UnpackedFloat)

variable {x y : Float} {v w : ℚ}

/-- A product is finite only if its factors are. -/
theorem value_of_mul (hx : value? x = some v) (positive : 0 < v)
    (finite : (x * y).isFinite = true) :
    ∃ w, value? y = some w := by
  obtain ⟨m, e, pos, parts, -⟩ := positive_parts hx positive
  have finite : (unpack (pack (UnpackedFloat.mul .binary64 (unpack x) (unpack y)))).isFinite =
      true := finite
  rw [parts] at finite
  rw [value?]
  cases factor : unpack y with
  | notANumber =>
      have fits : Fits .notANumber := trivial
      rw [factor] at finite
      cases (congrArg UnpackedFloat.isFinite (unpack_pack fits)).symm.trans finite
  | infinity s =>
      have fits : Fits (.infinity (.positive * s)) := trivial
      rw [factor] at finite
      cases (congrArg UnpackedFloat.isFinite (unpack_pack fits)).symm.trans finite
  | zero | finite => exact ⟨_, rfl⟩

/-- A product that stays finite at least doubles with a factor of two or more. -/
theorem mul_doubles (hx : value? x = some v) (hy : value? y = some w) (one : 1 ≤ v) (two : 2 ≤ w)
    (finite : (x * y).isFinite = true) : ∃ u, value? (x * y) = some u ∧ 2 * v ≤ u := by
  have positive : 0 < v := one_pos.trans_le one
  obtain ⟨point, -⟩ := onGrid_of_value hx positive
  obtain ⟨m, e, pos, px, rfl⟩ := positive_parts hx positive
  obtain ⟨n, f, pos', py, rfl⟩ := positive_parts hy (two_pos.trans_le two)
  have product := mul_pos positive (two_pos.trans_le two)
  obtain ⟨u, rounded, ⟨-, valued⟩ | ⟨-, infinite⟩⟩ := (mul_rounds px py).value product
  · refine ⟨u, valued.trans (congrArg some (one_mul u)), ?_⟩
    refine rounded.le_of_le product point.two_mul ?_
    rw [mul_comm]
    exact mul_le_mul_of_nonneg_left two positive.le
  · obtain ⟨u, valued⟩ := isFinite_iff_value.mp finite
    rw [value?, infinite] at valued
    cases valued

/-- One less than a number below two is not above one. -/
theorem not_one_lt_sub_one (hx : value? x = some v) (one : 1 < v) (two : v < 2) :
    ¬1.0 < x - 1.0 := by
  have positive : 0 < v - 1 := sub_pos.mpr one
  have point : OnGrid 1 := (onGrid_of_value value?_one one_pos).1
  obtain ⟨u, rounded, outcome⟩ := (sub_rounds hx value?_one one_pos one).value positive
  have small : u ≤ 1 := rounded.ge_of_ge positive point (by linarith)
  rcases outcome with ⟨-, valued⟩ | ⟨large, -⟩
  · rw [lt_iff_value value?_one (valued.trans (congrArg some (one_mul u)))]
    exact not_lt.mpr small
  · exact absurd (large.trans small) (not_le.mpr (one_lt_pow₀ one_lt_two (by decide)))

end Number

namespace Native

open Number

/-- The next factor and the product of those before it. -/
structure Product where
  factor : Float
  product : Float

namespace Product

/-- The product before the first factor. -/
def start (n : Float) : Product := ⟨n, 1.0⟩

/-- Whether the loop goes on. -/
def goesOn (p : Product) : Bool := 1.0 < p.factor && p.product.isFinite

/-- One round of the loop. -/
def next (p : Product) : Product := ⟨p.factor - 1.0, p.product * p.factor⟩

/-- The product doubles in a round after which the loop goes on. -/
theorem doubles {p : Product} {v : ℚ} (valued : value? p.product = some v) (one : 1 ≤ v)
    (now : p.goesOn = true) (later : p.next.goesOn = true) :
    ∃ u, value? p.next.product = some u ∧ 2 * v ≤ u := by
  obtain ⟨above, -⟩ := Bool.and_eq_true_iff.mp now
  obtain ⟨again, finite⟩ := Bool.and_eq_true_iff.mp later
  obtain ⟨w, factor⟩ := value_of_mul valued (one_pos.trans_le one) finite
  have large : 1 < w := (lt_iff_value value?_one factor).mp (of_decide_eq_true above)
  refine mul_doubles valued factor one ?_ finite
  by_contra small
  exact not_one_lt_sub_one factor large (not_le.mp small) (of_decide_eq_true again)

/-- After `k` rounds the product is at least `2 ^ k`, as long as the loop goes on. -/
theorem grows {n : Float} (k : ℕ) (rounds : ∀ j ≤ k, (next^[j] (start n)).goesOn = true) :
    ∃ u, value? (next^[k] (start n)).product = some u ∧ 2 ^ k ≤ u := by
  induction k with
  | zero => exact ⟨1, value?_one, le_of_eq (pow_zero 2)⟩
  | succ k ih =>
      obtain ⟨v, valued, large⟩ := ih fun j le => rounds j (by omega)
      have now := rounds k (by omega)
      have later := rounds (k + 1) le_rfl
      rw [Function.iterate_succ_apply'] at later ⊢
      obtain ⟨u, doubled, twice⟩ := doubles valued ((one_le_pow₀ one_le_two).trans large) now later
      refine ⟨u, doubled, ?_⟩
      rw [pow_succ]
      linarith

theorem stops (n : Float) : ∃ k ≤ 1024, (next^[k] (start n)).goesOn = false := by
  by_contra never
  push Not at never
  obtain ⟨u, valued, large⟩ := grows (n := n) 1024 fun j le => by simpa using never j le
  have positive : 0 < u := (pow_pos two_pos 1024).trans_le large
  exact absurd (onGrid_of_value valued positive).2 (not_lt.mpr large)

/-- Bounded repetition is the loop, if it has enough rounds for it. -/
theorem factorialFrom_eq {k steps : ℕ} (enough : k ≤ steps) (p : Product)
    (rounds : ∀ j < k, (next^[j] p).goesOn = true) (stopped : (next^[k] p).goesOn = false) :
    factorialFrom steps p.factor p.product = (next^[k] p).product := by
  induction k generalizing steps p with
  | zero =>
      cases steps with
      | zero => rfl
      | succ steps => exact if_neg (Bool.eq_false_iff.mp stopped)
  | succ k ih =>
      obtain ⟨steps, rfl⟩ : ∃ s, steps = s + 1 := ⟨steps - 1, by omega⟩
      have now : p.goesOn = true := rounds 0 (Nat.zero_lt_succ k)
      refine (if_pos now).trans (ih (by omega) p.next (fun j less => ?_) stopped)
      exact rounds (j + 1) (by omega)

end Product

/-- The loop of the factorial ends for every number, after at most 1025 rounds, and the factorial
is the product that it ends with. -/
theorem factorial_terminates (n : Float) :
    ∃ k ≤ 1025, (∀ j < k, (Product.next^[j] (.start n)).goesOn = true) ∧
      (Product.next^[k] (.start n)).goesOn = false ∧
      factorial n = (Product.next^[k] (.start n)).product := by
  classical
  obtain ⟨k, bound, stopped⟩ := Product.stops n
  have ends : ∃ k, (Product.next^[k] (.start n)).goesOn = false := ⟨k, stopped⟩
  have early : Nat.find ends ≤ 1025 := (Nat.find_min' ends stopped).trans (by omega)
  have rounds (j : ℕ) (less : j < Nat.find ends) : (Product.next^[j] (.start n)).goesOn = true :=
    Bool.eq_true_of_not_eq_false (Nat.find_min ends less)
  have first := Nat.find_spec ends
  refine ⟨Nat.find ends, early, rounds, first, ?_⟩
  rw [factorial, ← Product.factorialFrom_eq early (.start n) rounds first, Product.start]

/-- The factor stays the same throughout, as it is its own predecessor. -/
theorem factorial_terminates_steady :
    (1e17 - 1.0 == (1e17 : Float)) = true ∧
      ∃ k ≤ 1025, (∀ j < k, (Product.next^[j] (.start 1e17)).goesOn = true) ∧
        (Product.next^[k] (.start 1e17)).goesOn = false ∧
        factorial 1e17 = (Product.next^[k] (.start 1e17)).product :=
  ⟨by decide +kernel, factorial_terminates 1e17⟩

end Native

end PolyCalc
