import Mathlib.Algebra.Group.Basic
import PolyCalc.Proofs.Fallible

/-!
Powers by repeated squaring.

`Multiplies` lists the products that come up on the way to a power. The power is there
if and only if none of them fails (`timesPower_ok_iff`). Where the products are those of a
monoid, the power is that of the monoid (`timesPower_pow`); where they never fail, it is
always there (`timesPower_eq`).
-/

namespace PolyCalc

variable {β : Type}

/-- The result after the lowest binary digit of the exponent. -/
def digitProduct (mul : β → β → Except Fault β) (result base : β) (n : Nat) : Except Fault β :=
  if n % 2 = 1 then mul result base else .ok result

/-- The products that come up on the way to `result * base ^ n`. -/
inductive Multiplies (mul : β → β → Except Fault β) : β → β → Nat → β → β → Prop where
  /-- Into the result, where the lowest digit is one. -/
  | digit {result base n} : n % 2 = 1 → Multiplies mul result base n result base
  /-- The base with itself, where there is another digit. -/
  | square {result base n result'} : n / 2 ≠ 0 → digitProduct mul result base n = .ok result' →
      Multiplies mul result base n base base
  /-- What comes up from the next digit on. -/
  | next {result base n result' base' a b} : n / 2 ≠ 0 →
      digitProduct mul result base n = .ok result' → mul base base = .ok base' →
      Multiplies mul result' base' (n / 2) a b → Multiplies mul result base n a b

section

variable {mul : β → β → Except Fault β} {result base : β} {n : Nat}

theorem timesPower_zero (mul : β → β → Except Fault β) (result base : β) :
    timesPower mul result base 0 = .ok result := by
  rw [timesPower, if_pos rfl]

/-- The last digit: nothing is squared after it. -/
theorem timesPower_one (mul : β → β → Except Fault β) (result base : β) :
    timesPower mul result base 1 = mul result base := by
  rw [timesPower_digit mul result base Nat.one_ne_zero]
  show (mul result base >>= fun r => .ok r) = _
  cases mul result base <;> rfl

/-- Any other digit. -/
theorem timesPower_next (mul : β → β → Except Fault β) (result base : β) (more : n / 2 ≠ 0) :
    timesPower mul result base n =
      digitProduct mul result base n >>= fun result =>
        mul base base >>= fun base => timesPower mul result base (n / 2) := by
  rw [timesPower_digit mul result base (by omega)]
  simp only [if_neg more]
  rfl

/-- The digits of an exponent, from the lowest to the last. -/
theorem digits_induction {motive : Nat → Prop} (zero : motive 0) (one : motive 1)
    (next : ∀ n, n / 2 ≠ 0 → motive (n / 2) → motive n) (n : Nat) : motive n := by
  induction n using Nat.strongRecOn with
  | ind n ih =>
      by_cases more : n / 2 = 0
      · obtain rfl | rfl : n = 0 ∨ n = 1 := by omega
        · exact zero
        · exact one
      · exact next n more (ih (n / 2) (by omega))

/-- The power is there if and only if no product on the way fails. -/
theorem timesPower_ok_iff :
    (∃ r, timesPower mul result base n = .ok r) ↔
      ∀ a b, Multiplies mul result base n a b → ∃ c, mul a b = .ok c := by
  induction n using digits_induction generalizing result base with
  | zero =>
      refine ⟨fun _ a b product => ?_, fun _ => ⟨result, timesPower_zero ..⟩⟩
      cases product with
      | digit odd => cases odd
      | square more => exact absurd rfl more
      | next more => exact absurd rfl more
  | one =>
      rw [timesPower_one]
      refine ⟨fun done a b product => ?_, fun each => each result base (.digit rfl)⟩
      cases product with
      | digit => exact done
      | square more => exact absurd rfl more
      | next more => exact absurd rfl more
  | next n more ih =>
      rw [timesPower_next mul result base more]
      constructor
      · rintro ⟨r, done⟩ a b product
        obtain ⟨result', digit, done⟩ := bind_ok done
        obtain ⟨base', squared, done⟩ := bind_ok done
        cases product with
        | digit odd =>
            rw [digitProduct, if_pos odd] at digit
            exact ⟨result', digit⟩
        | square => exact ⟨base', squared⟩
        | next _ digit' squared' product =>
            cases digit.symm.trans digit'
            cases squared.symm.trans squared'
            exact ih.mp ⟨r, done⟩ a b product
      · intro each
        obtain ⟨result', digit⟩ : ∃ result', digitProduct mul result base n = .ok result' := by
          unfold digitProduct
          split
          · rename_i odd
            exact each result base (.digit odd)
          · exact ⟨result, rfl⟩
        obtain ⟨base', squared⟩ := each base base (.square more digit)
        obtain ⟨r, done⟩ := ih.mpr fun a b product => each a b (.next more digit squared product)
        refine ⟨r, ?_⟩
        rw [digit, squared]
        exact done

end

/-- The lowest digit of an exponent, and the others with the square. -/
theorem mul_pow_digits {M : Type} [Monoid M] (x y : M) (n : Nat) :
    x * y ^ (n % 2) * (y * y) ^ (n / 2) = x * y ^ n := by
  rw [← pow_two, ← pow_mul, mul_assoc, ← pow_add, Nat.mod_add_div]

/-- Where products are those of a monoid, so are powers. The products need to be so
only for values with a property that they keep. -/
theorem timesPower_pow {M : Type} [Monoid M] (P : β → Prop) (meaning : β → M)
    {mul : β → β → Except Fault β}
    (product : ∀ a b c, P a → P b → mul a b = .ok c → P c ∧ meaning c = meaning a * meaning b)
    {result base r : β} {n : Nat} (resultHolds : P result) (baseHolds : P base)
    (done : timesPower mul result base n = .ok r) :
    P r ∧ meaning r = meaning result * meaning base ^ n := by
  induction n using digits_induction generalizing result base with
  | zero =>
      rw [timesPower_zero] at done
      cases done
      exact ⟨resultHolds, by rw [pow_zero, mul_one]⟩
  | one =>
      rw [timesPower_one] at done
      rw [pow_one]
      exact product _ _ _ resultHolds baseHolds done
  | next n more ih =>
      rw [timesPower_next mul result base more] at done
      obtain ⟨result', digit, done⟩ := bind_ok done
      obtain ⟨base', squared, done⟩ := bind_ok done
      have digitHolds : P result' ∧ meaning result' = meaning result * meaning base ^ (n % 2) := by
        unfold digitProduct at digit
        split at digit
        · rename_i odd
          rw [odd, pow_one]
          exact product _ _ _ resultHolds baseHolds digit
        · rename_i even
          cases digit
          exact ⟨resultHolds, by rw [Nat.mod_two_ne_one.mp even, pow_zero, mul_one]⟩
      obtain ⟨squareHolds, square⟩ := product _ _ _ baseHolds baseHolds squared
      obtain ⟨holds, power⟩ := ih digitHolds.1 squareHolds done
      refine ⟨holds, ?_⟩
      rw [power, digitHolds.2, square, mul_pow_digits]

/-- Where all products of a monoid are there, so are all powers. -/
theorem timesPower_eq {M : Type} [Monoid M] (value : M → β) {mul : β → β → Except Fault β}
    (product : ∀ x y, mul (value x) (value y) = .ok (value (x * y))) (x y : M) (n : Nat) :
    timesPower mul (value x) (value y) n = .ok (value (x * y ^ n)) := by
  induction n using digits_induction generalizing x y with
  | zero => rw [timesPower_zero, pow_zero, mul_one]
  | one => rw [timesPower_one, product, pow_one]
  | next n more ih =>
      have digit : digitProduct mul (value x) (value y) n = .ok (value (x * y ^ (n % 2))) := by
        unfold digitProduct
        split
        · rename_i odd
          rw [product, odd, pow_one]
        · rename_i even
          rw [Nat.mod_two_ne_one.mp even, pow_zero, mul_one]
      calc timesPower mul (value x) (value y) n
        _ = timesPower mul (value (x * y ^ (n % 2))) (value (y * y)) (n / 2) := by
            rw [timesPower_next _ _ _ more, digit, product]
            rfl
        _ = .ok (value (x * y ^ (n % 2) * (y * y) ^ (n / 2))) := ih ..
        _ = .ok (value (x * y ^ n)) := by rw [mul_pow_digits]

end PolyCalc
