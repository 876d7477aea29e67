import Mathlib.Algebra.Order.Field.Basic
import Mathlib.Data.Rat.Cast.Order
import Mathlib.Tactic.Linarith
import Mathlib.Tactic.Positivity
import PolyCalc.Proofs.Number.Parts

/-!
The value of a number.

A finite number has an exact value, `± mantissa * 2 ^ exponent`; both zeros have the value 0
(`value?`). Comparisons of numbers are comparisons of values (`beq_iff_value`,
`lt_iff_value`). A number whose value is a whole number below `2 ^ 53` has no other parts than
these: the sign of the value, and its digits before the point, with zeros after it
(`parts_of_whole`).
-/

namespace PolyCalc.Number

open Float.Model (Format UnpackedFloat totalExponent)
open Float.Model.UnpackedFloat

/-- The value of a finite number. -/
def value? (x : Float) : Option ℚ :=
  match unpack x with
  | .zero _ => some 0
  | .finite s m e _ => some (s.apply m * 2 ^ e)
  | _ => none

/-- A number with a value is a zero or has a mantissa and an exponent. -/
theorem value?_cases {x : Float} {v : ℚ} (valued : value? x = some v) :
    (∃ s, unpack x = .zero s ∧ v = 0) ∨
      ∃ s m e pos, unpack x = .finite s m e pos ∧ v = s.apply m * (2 : ℚ) ^ e := by
  rw [value?] at valued
  cases parts : unpack x with
  | notANumber | infinity =>
      rw [parts] at valued
      cases valued
  | zero s =>
      rw [parts] at valued
      exact .inl ⟨s, rfl, (Option.some.inj valued).symm⟩
  | finite s m e pos =>
      rw [parts] at valued
      exact .inr ⟨s, m, e, pos, rfl, (Option.some.inj valued).symm⟩

theorem magnitude_pos {m : Nat} (pos : 0 < m) (e : Int) : (0 : ℚ) < m * 2 ^ e :=
  mul_pos (Nat.cast_pos.mpr pos) (zpow_pos two_pos e)

theorem negative_apply (m : Nat) (e : Int) :
    Sign.negative.apply m * (2 : ℚ) ^ e = -(m * 2 ^ e) := by
  rw [Sign.apply, Int.cast_neg, Int.cast_natCast, neg_mul]

/-! ### Finite numbers -/

theorem isFinite_iff_value {x : Float} : x.isFinite = true ↔ ∃ v, value? x = some v := by
  show (unpack x).isFinite = true ↔ _
  rw [value?]
  cases unpack x with
  | notANumber | infinity => exact ⟨nofun, nofun⟩
  | zero | finite => exact ⟨fun _ => ⟨_, rfl⟩, fun _ => rfl⟩

/-- The parts of a positive number. -/
theorem positive_parts {x : Float} {v : ℚ} (valued : value? x = some v) (positive : 0 < v) :
    ∃ m e pos, unpack x = .finite .positive m e pos ∧ v = m * 2 ^ e := by
  rcases value?_cases valued with ⟨-, -, rfl⟩ | ⟨s, m, e, pos, parts, rfl⟩
  · exact absurd positive (lt_irrefl 0)
  · cases s with
    | positive => exact ⟨m, e, pos, parts, by rw [Sign.apply, Int.cast_natCast]⟩
    | negative =>
        rw [negative_apply] at positive
        exact absurd (neg_pos.mp positive) (magnitude_pos pos e).not_gt

/-! ### Comparisons -/

theorem Fits.unique_of_le {s s' : Sign} {m m' : Nat} {e e' : Int} {pos : 0 < m} {pos' : 0 < m'}
    (fits : Fits (.finite s m e pos)) (fits' : Fits (.finite s' m' e' pos'))
    (same : (m : ℚ) * 2 ^ e = m' * 2 ^ e') (le : e ≤ e') : m = m' ∧ e = e' := by
  obtain ⟨k, rfl⟩ : ∃ k : Nat, e' = e + k := ⟨(e' - e).toNat, by omega⟩
  have scaled : m = m' * 2 ^ k := by
    rw [zpow_add₀ two_ne_zero, zpow_natCast, mul_comm (2 ^ e), ← mul_assoc] at same
    exact_mod_cast mul_right_cancel₀ (zpow_ne_zero e two_ne_zero) same
  cases k with
  | zero => simpa using scaled
  | succ k =>
      -- The larger exponent is not the least one, so its mantissa has 53 bits.
      obtain ⟨short, -, least, -⟩ := fits
      obtain ⟨-, long | subnormal, -⟩ := fits'
      · have : 2 ^ 52 * 2 ^ 1 ≤ m' * 2 ^ (k + 1) :=
          Nat.mul_le_mul long (Nat.pow_le_pow_right (by decide) (by omega))
        omega
      · omega

/-- Magnitudes of the same value have the same parts. -/
theorem Fits.unique {s s' : Sign} {m m' : Nat} {e e' : Int} {pos : 0 < m} {pos' : 0 < m'}
    (fits : Fits (.finite s m e pos)) (fits' : Fits (.finite s' m' e' pos'))
    (same : (m : ℚ) * 2 ^ e = m' * 2 ^ e') : m = m' ∧ e = e' := by
  rcases Int.le_total e e' with le | ge
  · exact fits.unique_of_le fits' same le
  · obtain ⟨mantissas, exponents⟩ := fits'.unique_of_le fits same.symm ge
    exact ⟨mantissas.symm, exponents.symm⟩

/-- Finite numbers are compared by their parts. -/
theorem finite_beq_iff {s s' : Sign} {m m' : Nat} {e e' : Int} {pos : 0 < m} {pos' : 0 < m'} :
    UnpackedFloat.beq (.finite s m e pos) (.finite s' m' e' pos') = true ↔
      s = s' ∧ m = m' ∧ e = e' := by
  have parts : (compare e e').then (compare m m') = .eq ↔ m = m' ∧ e = e' := by
    rw [Ordering.then_eq_eq, compare_eq_iff_eq, compare_eq_iff_eq, and_comm]
  cases s with
  | positive =>
      cases s' with
      | positive =>
          show (some ((compare e e').then (compare m m')) == some .eq) = true ↔ _
          rw [beq_iff_eq, Option.some_inj, parts, eq_self, true_and]
      | negative =>
          constructor
          · rintro ⟨⟩
          · rintro ⟨⟨⟩, -⟩
  | negative =>
      cases s' with
      | positive =>
          constructor
          · rintro ⟨⟩
          · rintro ⟨⟨⟩, -⟩
      | negative =>
          show (some ((compare e e').then (compare m m')).swap == some .eq) = true ↔ _
          rw [beq_iff_eq, Option.some_inj, Ordering.swap_eq_eq, parts, eq_self, true_and]

theorem apply_eq_iff {s s' : Sign} {m m' : Nat} {e e' : Int} (pos : 0 < m) (pos' : 0 < m') :
    s.apply m * (2 : ℚ) ^ e = s'.apply m' * (2 : ℚ) ^ e' ↔
      s = s' ∧ (m : ℚ) * 2 ^ e = m' * 2 ^ e' := by
  have positive := magnitude_pos pos e
  have positive' := magnitude_pos pos' e'
  cases s <;> cases s' <;> simp [Sign.apply] <;> linarith

theorem apply_ne_zero {s : Sign} {m : Nat} (pos : 0 < m) (e : Int) :
    s.apply m * (2 : ℚ) ^ e ≠ 0 := by
  have positive := magnitude_pos pos e
  cases s with
  | positive => exact positive.ne'
  | negative =>
      rw [negative_apply]
      exact (neg_neg_of_pos positive).ne

/-- Finite numbers are equal if and only if their values are. -/
theorem beq_iff_value {x y : Float} {v w : ℚ} (hx : value? x = some v) (hy : value? y = some w) :
    (x == y) = true ↔ v = w := by
  show (unpack x).beq (unpack y) = true ↔ v = w
  rcases value?_cases hx with ⟨s, px, rfl⟩ | ⟨s, m, e, pos, px, rfl⟩ <;>
    rcases value?_cases hy with ⟨s', py, rfl⟩ | ⟨s', m', e', pos', py, rfl⟩ <;> rw [px, py]
  · exact ⟨fun _ => rfl, fun _ => rfl⟩
  · refine ⟨fun same => ?_, fun zero => absurd zero.symm (apply_ne_zero pos' e')⟩
    cases s' <;> cases same
  · refine ⟨fun same => ?_, fun zero => absurd zero (apply_ne_zero pos e)⟩
    cases s <;> cases same
  · have fits := fits_unpack x
    have fits' := fits_unpack y
    rw [px] at fits
    rw [py] at fits'
    rw [finite_beq_iff, apply_eq_iff pos pos']
    constructor
    · rintro ⟨rfl, rfl, rfl⟩
      exact ⟨rfl, rfl⟩
    · rintro ⟨rfl, same⟩
      exact ⟨rfl, fits.unique fits' same⟩

/-- The number with the larger exponent is the larger one, as its mantissa has 53 bits. -/
theorem Fits.lt_of_exponent_lt {s s' : Sign} {m m' : Nat} {e e' : Int} {pos : 0 < m}
    {pos' : 0 < m'} (fits : Fits (.finite s m e pos)) (fits' : Fits (.finite s' m' e' pos'))
    (less : e < e') :
    (m : ℚ) * 2 ^ e < m' * 2 ^ e' := by
  obtain ⟨short, -, least, -⟩ := fits
  obtain ⟨-, normal, -⟩ := fits'
  have long : 2 ^ 52 ≤ m' := by omega
  calc (m : ℚ) * 2 ^ e < 2 ^ 53 * 2 ^ e :=
        mul_lt_mul_of_pos_right (by exact_mod_cast short) (zpow_pos two_pos e)
    _ = 2 ^ 52 * 2 ^ (e + 1) := by
        rw [zpow_add_one₀ two_ne_zero, pow_succ, mul_assoc, mul_comm 2]
    _ ≤ m' * 2 ^ e' :=
        mul_le_mul (by exact_mod_cast long) (zpow_le_zpow_right₀ one_le_two less)
          (zpow_pos two_pos _).le (Nat.cast_nonneg m')

/-- Magnitudes are compared by their exponents first. -/
theorem Fits.compare_eq_lt_iff {s s' : Sign} {m m' : Nat} {e e' : Int} {pos : 0 < m}
    {pos' : 0 < m'} (fits : Fits (.finite s m e pos)) (fits' : Fits (.finite s' m' e' pos')) :
    (compare e e').then (compare m m') = .lt ↔ (m : ℚ) * 2 ^ e < m' * 2 ^ e' := by
  rw [Ordering.then_eq_lt, compare_lt_iff_lt, compare_eq_iff_eq, compare_lt_iff_lt]
  rcases lt_trichotomy e e' with less | rfl | greater
  · simp [less, fits.lt_of_exponent_lt fits' less]
  · have unit : (0 : ℚ) < 2 ^ e := zpow_pos two_pos e
    rw [mul_lt_mul_iff_left₀ unit, Nat.cast_lt]
    simp
  · have more := fits'.lt_of_exponent_lt fits greater
    simp [greater.not_gt, greater.ne', more.le.not_gt]

/-- Finite numbers are ordered as their values. -/
theorem lt_iff_value {x y : Float} {v w : ℚ} (hx : value? x = some v) (hy : value? y = some w) :
    x < y ↔ v < w := by
  have parts : x < y ↔ ((unpack x).compare (unpack y) == some .lt) = true := decide_eq_true_iff
  rw [parts, beq_iff_eq]
  rcases value?_cases hx with ⟨s, px, rfl⟩ | ⟨s, m, e, pos, px, rfl⟩ <;>
    rcases value?_cases hy with ⟨s', py, rfl⟩ | ⟨s', m', e', pos', py, rfl⟩ <;> rw [px, py]
  · exact ⟨nofun, fun less => absurd less (lt_irrefl 0)⟩
  · have positive := magnitude_pos pos' e'
    cases s' with
    | positive => exact ⟨fun _ => positive, fun _ => rfl⟩
    | negative =>
        rw [negative_apply]
        exact ⟨nofun, fun less => by linarith⟩
  · have positive := magnitude_pos pos e
    cases s with
    | positive => exact ⟨nofun, fun less => absurd less positive.not_gt⟩
    | negative =>
        rw [negative_apply]
        exact ⟨fun _ => by linarith, fun _ => rfl⟩
  · have fits := fits_unpack x
    have fits' := fits_unpack y
    rw [px] at fits
    rw [py] at fits'
    have positive := magnitude_pos pos e
    have positive' := magnitude_pos pos' e'
    cases s with
    | positive =>
        cases s' with
        | positive =>
            show some ((compare e e').then (compare m m')) = some .lt ↔
              (m : ℚ) * 2 ^ e < m' * 2 ^ e'
            rw [Option.some_inj, fits.compare_eq_lt_iff fits']
        | negative =>
            rw [negative_apply]
            exact ⟨nofun,
              fun less => absurd (less.trans (neg_neg_of_pos positive')) positive.le.not_gt⟩
    | negative =>
        rw [negative_apply]
        cases s' with
        | positive => exact ⟨fun _ => (neg_neg_of_pos positive).trans positive', fun _ => rfl⟩
        | negative =>
            show some ((compare e e').then (compare m m')).swap = some .lt ↔ _
            rw [negative_apply, neg_lt_neg_iff, ← fits'.compare_eq_lt_iff fits, Option.some_inj,
              Ordering.swap_eq_lt, Ordering.then_eq_gt, Ordering.then_eq_lt, compare_gt_iff_gt,
              compare_gt_iff_gt, compare_lt_iff_lt, compare_lt_iff_lt, compare_eq_iff_eq,
              compare_eq_iff_eq, eq_comm]

theorem neg_iff_value {x : Float} {v : ℚ} (hx : value? x = some v) : x < 0.0 ↔ v < 0 :=
  lt_iff_value hx rfl

theorem value?_one : value? 1.0 = some 1 := by
  have parts : value? 1.0 = some (Sign.positive.apply (2 ^ 52) * (2 : ℚ) ^ (-52 : ℤ)) := rfl
  rw [parts]
  norm_num [Sign.apply]

/-! ### Whole numbers -/

/-- The sign of a whole number. -/
def signOf (z : ℤ) : Sign := if z < 0 then .negative else .positive

/-- The sign and the magnitude of a whole value. -/
theorem whole_apply {s : Sign} {m : Nat} {e z : Int} (pos : 0 < m)
    (valued : (z : ℚ) = s.apply m * (2 : ℚ) ^ e) :
    s = signOf z ∧ (z.natAbs : ℚ) = m * 2 ^ e := by
  have positive := magnitude_pos pos e
  cases s with
  | positive =>
      have valued : (z : ℚ) = m * 2 ^ e := valued
      have above : 0 < z := by
        rw [← valued] at positive
        exact_mod_cast positive
      rw [signOf, if_neg (by omega), ← valued, Nat.cast_natAbs, abs_of_pos above]
      exact ⟨rfl, rfl⟩
  | negative =>
      have valued : (z : ℚ) = -(m * 2 ^ e) := valued.trans (negative_apply m e)
      have below : z < 0 := by
        have : (z : ℚ) < 0 := by linarith
        exact_mod_cast this
      rw [signOf, if_pos below, Nat.cast_natAbs, abs_of_neg below]
      refine ⟨rfl, ?_⟩
      push_cast
      linarith

/-- The parts of a number whose value is a whole number below `2 ^ 53`. -/
theorem parts_of_whole {x : Float} {z : ℤ} (valued : value? x = some (z : ℚ)) (nonzero : z ≠ 0)
    (small : z.natAbs < 2 ^ 53) :
    ∃ k : Nat, ∃ pos, unpack x = .finite (signOf z) (z.natAbs * 2 ^ k) (-k) pos := by
  rcases value?_cases valued with ⟨_, _, zero⟩ | ⟨s, m, e, pos, parts, valued⟩
  · exact absurd (by exact_mod_cast zero) nonzero
  obtain ⟨rfl, magnitude⟩ := whole_apply pos valued
  have fits : Fits (.finite (signOf z) m e pos) := parts ▸ fits_unpack x
  -- A mantissa of 53 bits before the point would be too large.
  have noBits : e ≤ 0 := by
    by_contra above
    obtain ⟨k, rfl⟩ : ∃ k : Nat, e = k := ⟨e.toNat, by omega⟩
    have whole : z.natAbs = m * 2 ^ k := by
      rw [zpow_natCast] at magnitude
      exact_mod_cast magnitude
    have long : 2 ^ 52 ≤ m := by
      obtain ⟨-, normal, -⟩ := fits
      omega
    have : 2 ^ 52 * 2 ^ 1 ≤ m * 2 ^ k :=
      Nat.mul_le_mul long (Nat.pow_le_pow_right (by decide) (by omega))
    omega
  obtain ⟨k, rfl⟩ : ∃ k : Nat, e = -k := ⟨(-e).toNat, by omega⟩
  have whole : m = z.natAbs * 2 ^ k := by
    rw [zpow_neg, zpow_natCast, ← div_eq_mul_inv, eq_div_iff (by positivity)] at magnitude
    exact_mod_cast magnitude.symm
  subst whole
  exact ⟨k, pos, parts⟩

end PolyCalc.Number
