import PolyCalc.Operator.Apply
import PolyCalc.Proofs.Number.Fractions

/-!
Division of a polynomial by a number.

A matrix is divided cell by cell. A polynomial is multiplied by the reciprocal of the number,
and this is not the same: its coefficients are rounded twice, once in the reciprocal and once
in the product (`mul_one_div_rounds`). The two agree where the reciprocal is exact, that is for
powers of two, and where it is not a matter of rounding at all, for zeros, infinities and NaN
(`mul_one_div_of_power`, `mul_one_div_of_special`). Where the reciprocal is too large, no
coefficient is left finite (`not_isFinite_mul`).
-/

namespace PolyCalc.Number

open Float.Model (Format UnpackedFloat)
open Float.Model.UnpackedFloat

variable {c n : Float} {s t : Sign} {m k : ℕ} {e f : ℤ} {pos : 0 < m} {pos' : 0 < k}

/-! ### Signs -/

theorem positive_div (t : Sign) : .positive / t = t := by cases t <;> rfl

theorem sign_mul_eq_div (s t : Sign) : s * t = s / t := by cases s <;> cases t <;> rfl

theorem abs_apply_one (s : Sign) : |(s.apply 1 : ℚ)| = 1 := by
  cases s <;> simp [Sign.apply]

/-- All numbers but zeros, infinities and NaN have a mantissa and an exponent. -/
theorem finite_parts {x : Float} (ordinary : ¬(value? x = none ∨ value? x = some 0)) :
    ∃ s m e pos, unpack x = .finite s m e pos ∧ value? x = some (s.apply m * (2 : ℚ) ^ e) := by
  cases valued : value? x with
  | none => exact absurd (.inl valued) ordinary
  | some v =>
      rcases value?_cases valued with ⟨-, -, rfl⟩ | ⟨s, m, e, pos, parts, rfl⟩
      · exact absurd (.inr valued) ordinary
      · exact ⟨s, m, e, pos, parts, rfl⟩

/-- A number is its sign and the magnitude of its value. -/
theorem signed_parts {x : Float} {w : ℚ} (valued : value? x = some (s.apply 1 * w))
    (positive : 0 < w) :
    ∃ m e pos, unpack x = .finite s m e pos ∧ w = m * 2 ^ e := by
  rcases value?_cases valued with ⟨-, -, zero⟩ | ⟨s', m, e, pos, parts, same⟩
  · have := mul_eq_zero.mp zero
    cases s <;> simp [Sign.apply, positive.ne'] at this
  · have magnitude := magnitude_pos pos e
    cases s <;> cases s' <;> simp [Sign.apply] at same <;>
      first | exact ⟨m, e, pos, parts, by linarith⟩ | linarith

/-! ### The reciprocal -/

theorem one_div_rounds (hn : unpack n = .finite t k f pos') :
    RoundsTo t (k * 2 ^ f)⁻¹ (1.0 / n) := by
  obtain ⟨m, e, pos, parts, value⟩ := positive_parts value?_one one_pos
  have quotient := div_rounds parts hn
  rwa [← value, one_div, positive_div] at quotient

/-- The reciprocal of a number is not rounded to zero. -/
theorem rounded_inv_pos (hn : unpack n = .finite t k f pos') {w : ℚ}
    (rounded : Rounded (k * 2 ^ f)⁻¹ w) : 0 < w := by
  have fits : Fits (.finite t k f pos') := hn ▸ fits_unpack n
  have magnitude := magnitude_pos pos' f
  have point : OnGrid ((2 : ℚ) ^ 1024)⁻¹ :=
    ⟨1, -1024, by decide, by decide, by rw [Nat.cast_one, one_mul]; rfl⟩
  have bound : ((2 : ℚ) ^ 1024)⁻¹ ≤ ((k : ℚ) * 2 ^ f)⁻¹ :=
    inv_anti₀ magnitude fits.onGrid.2.le
  exact lt_of_lt_of_le (inv_pos.mpr (pow_pos two_pos _))
    (rounded.le_of_le (inv_pos.mpr magnitude) point bound)

/-- The reciprocal is finite, or too large. -/
theorem one_div_parts (hn : unpack n = .finite t k f pos') :
    ∃ w, Rounded (k * 2 ^ f)⁻¹ w ∧
      (w < 2 ^ 1024 ∧ (∃ m e pos, unpack (1.0 / n) = .finite t m e pos ∧ w = m * 2 ^ e) ∨
        2 ^ 1024 ≤ w ∧ unpack (1.0 / n) = .infinity t) := by
  obtain ⟨w, rounded, ⟨small, valued⟩ | large⟩ :=
    (one_div_rounds hn).value (inv_pos.mpr (magnitude_pos pos' f))
  · exact ⟨w, rounded, .inl ⟨small, signed_parts valued (rounded_inv_pos hn rounded)⟩⟩
  · exact ⟨w, rounded, .inr large⟩

/-- The reciprocal of a power of two is a power of two. -/
theorem one_div_power (hn : unpack n = .finite t k f pos') {j : ℤ} (least : -1023 ≤ j)
    (greatest : j ≤ 1023) (power : (k : ℚ) * 2 ^ f = 2 ^ j) :
    ∃ m e pos, unpack (1.0 / n) = .finite t m e pos ∧ (m : ℚ) * 2 ^ e = (2 ^ j)⁻¹ := by
  obtain ⟨w, rounded, rest⟩ := one_div_parts hn
  have inverse : (2 : ℚ) ^ (-j) = ((k : ℚ) * 2 ^ f)⁻¹ := by rw [power, zpow_neg]
  have point : OnGrid ((2 : ℚ) ^ (-j)) :=
    ⟨1, -j, by decide, by omega, by rw [Nat.cast_one, one_mul]⟩
  have positive := inv_pos.mpr (magnitude_pos pos' f)
  have exact : w = 2 ^ (-j) :=
    (rounded.ge_of_ge positive point inverse.ge).antisymm
      (rounded.le_of_le positive point inverse.le)
  rcases rest with ⟨-, m, e, pos, parts, value⟩ | ⟨large, -⟩
  · exact ⟨m, e, pos, parts, by rw [← value, exact, zpow_neg]⟩
  · have small : (2 : ℚ) ^ (-j) < 2 ^ (1024 : ℤ) := zpow_lt_zpow_right₀ one_lt_two (by omega)
    rw [exact] at large
    exact absurd small (not_lt.mpr (by exact_mod_cast large))

/-! ### Products with the reciprocal -/

theorem mul_one_div_rounds (hc : unpack c = .finite s m e pos)
    (hn : unpack n = .finite t k f pos') :
    ∃ w, Rounded (k * 2 ^ f)⁻¹ w ∧
      (w < 2 ^ 1024 ∧ RoundsTo (s / t) (m * 2 ^ e * w) (c * (1.0 / n)) ∨
        2 ^ 1024 ≤ w ∧ unpack (1.0 / n) = .infinity t) := by
  obtain ⟨w, rounded, ⟨small, m', e', pos', parts, rfl⟩ | large⟩ := one_div_parts hn
  · have product := mul_rounds hc parts
    rw [sign_mul_eq_div] at product
    exact ⟨_, rounded, .inl ⟨small, product⟩⟩
  · exact ⟨w, rounded, .inr large⟩

/-- A product with an infinity is infinite or NaN. -/
theorem not_isFinite_mul (infinite : unpack n = .infinity t) : (c * n).isFinite = false := by
  have fits : Fits (UnpackedFloat.mul .binary64 (unpack c) (.infinity t)) := by
    cases unpack c <;> trivial
  show (unpack (pack (UnpackedFloat.mul .binary64 (unpack c) (unpack n)))).isFinite = false
  rw [infinite, unpack_pack fits]
  cases unpack c <;> rfl

/-! ### Where both agree -/

theorem mul_eq_div_of_parts {r : Float} (same : UnpackedFloat.mul .binary64 (unpack c) (unpack r) =
    UnpackedFloat.div .binary64 (unpack c) (unpack n)) : c * r = c / n :=
  congrArg pack same

/-- A zero, an infinity and NaN are multiplied and divided alike by finite numbers of one sign. -/
theorem mul_eq_div_of_finite {r : Float} (hn : unpack n = .finite t k f pos')
    (hr : unpack r = .finite t m e pos) (special : value? c = none ∨ value? c = some 0) :
    c * r = c / n := by
  apply mul_eq_div_of_parts
  rw [hn, hr]
  cases hc : unpack c with
  | finite s m e pos =>
      rw [value?, hc] at special
      rcases special with ⟨⟨⟩⟩ | zero
      exact absurd (Option.some.inj zero) (apply_ne_zero pos e)
  | notANumber => rfl
  | infinity s => exact congrArg UnpackedFloat.infinity (sign_mul_eq_div s t)
  | zero s => exact congrArg UnpackedFloat.zero (sign_mul_eq_div s t)

theorem mul_one_div_of_power (hn : unpack n = .finite t k f pos') {j : ℤ} (least : -1023 ≤ j)
    (greatest : j ≤ 1023) (power : (k : ℚ) * 2 ^ f = 2 ^ j) : c * (1.0 / n) = c / n := by
  obtain ⟨m', e', pos', parts, inverse⟩ := one_div_power hn least greatest power
  by_cases special : value? c = none ∨ value? c = some 0
  · exact mul_eq_div_of_finite hn parts special
  · obtain ⟨s, m, e, pos, hc, -⟩ := finite_parts special
    have product := mul_rounds hc parts
    have quotient := div_rounds hc hn
    rw [inverse, sign_mul_eq_div] at product
    rw [power, div_eq_mul_inv] at quotient
    exact product.unique quotient

theorem unpack_one_div {u : UnpackedFloat} (fits : Fits u)
    (quotient : ∀ m e pos, UnpackedFloat.div .binary64 (.finite .positive m e pos) (unpack n) = u) :
    unpack (1.0 / n) = u := by
  obtain ⟨m, e, pos, one, -⟩ := positive_parts value?_one one_pos
  show unpack (pack (UnpackedFloat.div .binary64 (unpack 1.0) (unpack n))) = u
  rw [one, quotient, unpack_pack fits]

theorem mul_one_div_of_special (special : value? n = none ∨ value? n = some 0) :
    c * (1.0 / n) = c / n := by
  apply mul_eq_div_of_parts
  cases hn : unpack n with
  | finite t k f pos' =>
      rw [value?, hn] at special
      rcases special with ⟨⟨⟩⟩ | zero
      exact absurd (Option.some.inj zero) (apply_ne_zero pos' f)
  | notANumber =>
      have fits : Fits .notANumber := trivial
      rw [unpack_one_div fits (by rw [hn]; exact fun _ _ _ => rfl)]
      cases unpack c <;> rfl
  | infinity t =>
      have fits : Fits (.zero t) := trivial
      have swap m e pos : UnpackedFloat.div .binary64 (.finite .positive m e pos) (unpack n) =
          .zero t := by
        rw [hn]
        exact congrArg UnpackedFloat.zero (positive_div t)
      rw [unpack_one_div fits swap]
      cases unpack c with
      | notANumber | infinity => rfl
      | zero s | finite s => exact congrArg UnpackedFloat.zero (sign_mul_eq_div s t)
  | zero t =>
      have fits : Fits (.infinity t) := trivial
      have swap m e pos : UnpackedFloat.div .binary64 (.finite .positive m e pos) (unpack n) =
          .infinity t := by
        rw [hn]
        exact congrArg UnpackedFloat.infinity (positive_div t)
      rw [unpack_one_div fits swap]
      cases unpack c with
      | notANumber | zero => rfl
      | infinity s | finite s => exact congrArg UnpackedFloat.infinity (sign_mul_eq_div s t)

/-! ### How far the two are apart -/

/-- Above the subnormal numbers rounding moves a value by at most one part in `2 ^ 53`. -/
theorem Rounded.error {v w : ℚ} (h : Rounded v w) (normal : 2 ^ (-1022 : ℤ) ≤ v) :
    |w - v| ≤ 2 ^ (-53 : ℤ) * v := by
  obtain ⟨r, ⟨half, -⟩, rfl⟩ := h
  have pos : 0 < v := lt_of_lt_of_le (zpow_pos two_pos _) normal
  have unit : (0 : ℚ) < 2 ^ grid v := zpow_pos two_pos _
  have digits : (2 : ℚ) ^ (52 : ℤ) * 2 ^ grid v ≤ v := by
    have log : -1022 ≤ Int.log 2 v :=
      (Int.zpow_le_iff_le_log (b := 2) (by decide) pos).mp (by exact_mod_cast normal)
    refine le_trans (le_of_eq ?_) (two_zpow_log_le pos)
    rw [← zpow_add₀ two_ne_zero, grid]
    congr 1
    omega
  calc |r * 2 ^ grid v - v| = |v / 2 ^ grid v - r| * 2 ^ grid v := by
        rw [abs_sub_comm, ← abs_of_pos unit, ← abs_mul, abs_of_pos unit, sub_mul,
          div_mul_cancel₀ _ unit.ne']
    _ ≤ 1 / 2 * 2 ^ grid v := mul_le_mul_of_nonneg_right half unit.le
    _ = 2 ^ (-53 : ℤ) * (2 ^ (52 : ℤ) * 2 ^ grid v) := by
        rw [← mul_assoc, ← zpow_add₀ two_ne_zero]
        norm_num
    _ ≤ 2 ^ (-53 : ℤ) * v := mul_le_mul_of_nonneg_left digits (zpow_pos two_pos _).le

/-- Rounding the reciprocal and then the product moves the quotient `a / b` by at most two parts
in `2 ^ 52`. -/
theorem Rounded.error_twice {a b w d : ℚ} (posA : 0 < a) (posB : 0 < b) (inner : Rounded b⁻¹ w)
    (outer : Rounded (a * w) d) (normal : 2 ^ (-1022 : ℤ) ≤ b⁻¹)
    (normal' : 2 ^ (-1022 : ℤ) ≤ a * w) : |d - a / b| ≤ 2 ^ (-51 : ℤ) * (a / b) := by
  have first := inner.error normal
  have second := outer.error normal'
  have quotient : a / b = a * b⁻¹ := div_eq_mul_inv a b
  have scaled : |a * w - a / b| ≤ 2 ^ (-53 : ℤ) * (a / b) := by
    rw [quotient, ← mul_sub, abs_mul, abs_of_pos posA]
    calc a * |w - b⁻¹| ≤ a * (2 ^ (-53 : ℤ) * b⁻¹) := mul_le_mul_of_nonneg_left first posA.le
      _ = 2 ^ (-53 : ℤ) * (a * b⁻¹) := by ring
  have positive : 0 < a / b := div_pos posA posB
  have upper : a * w ≤ 2 * (a / b) := by
    have := (abs_le.mp scaled).2
    have small : (2 : ℚ) ^ (-53 : ℤ) * (a / b) ≤ a / b :=
      mul_le_of_le_one_left positive.le (by norm_num)
    linarith
  calc |d - a / b| ≤ |d - a * w| + |a * w - a / b| := abs_sub_le ..
    _ ≤ 2 ^ (-53 : ℤ) * (2 * (a / b)) + 2 ^ (-53 : ℤ) * (a / b) :=
        add_le_add (second.trans (mul_le_mul_of_nonneg_left upper (zpow_pos two_pos _).le)) scaled
    _ ≤ 2 ^ (-51 : ℤ) * (a / b) := by
        norm_num
        linarith

/-! ### Polynomials -/

/-- The numbers with a reciprocal that is not rounded: zeros, infinities and NaN, and powers of
two within the range of finite numbers. -/
def ExactReciprocal (n : Float) : Prop :=
  ∀ v, value? n = some v → v = 0 ∨ ∃ j : ℤ, |j| ≤ 1023 ∧ |v| = 2 ^ j

theorem abs_apply (s : Sign) (m : ℕ) (e : ℤ) : |s.apply m * (2 : ℚ) ^ e| = m * 2 ^ e := by
  have nonneg : (0 : ℚ) ≤ m * 2 ^ e := mul_nonneg (Nat.cast_nonneg m) (zpow_pos two_pos e).le
  cases s with
  | positive => rw [Sign.apply, Int.cast_natCast, abs_of_nonneg nonneg]
  | negative => rw [negative_apply, abs_neg, abs_of_nonneg nonneg]

theorem mul_one_div_of_exact (reciprocal : ExactReciprocal n) : c * (1.0 / n) = c / n := by
  by_cases special : value? n = none ∨ value? n = some 0
  · exact mul_one_div_of_special special
  · obtain ⟨t, k, f, pos, parts, valued⟩ := finite_parts special
    rcases reciprocal _ valued with zero | ⟨j, range, power⟩
    · exact absurd zero (apply_ne_zero pos f)
    · rw [abs_apply] at power
      obtain ⟨least, greatest⟩ := abs_le.mp range
      exact mul_one_div_of_power parts least greatest power

theorem Rounded.unique {v w w' : ℚ} (h : Rounded v w) (h' : Rounded v w') : w = w' := by
  obtain ⟨r, rounded, rfl⟩ := h
  obtain ⟨r', rounded', rfl⟩ := h'
  rw [rounded.unique rounded']

theorem apply_div_apply (s t : Sign) (m k : ℕ) (e f : ℤ) :
    s.apply m * (2 : ℚ) ^ e / (t.apply k * (2 : ℚ) ^ f) =
      (s / t).apply 1 * ((m : ℚ) * 2 ^ e / (k * 2 ^ f)) := by
  have signs : (s / t).apply 1 = s.apply 1 * t.apply 1 := by cases s <;> cases t <;> rfl
  rw [signs]
  cases s <;> cases t <;> simp [Sign.apply, neg_div, div_neg]

/-- A quotient is rounded once, a product with the reciprocal twice. -/
theorem quotient_rounds {u v w : ℚ} (hc : value? c = some u) (hn : value? n = some v) (hu : u ≠ 0)
    (hv : v ≠ 0) (rounded : Rounded |v|⁻¹ w) (small : w < 2 ^ 1024) :
    ∃ s : Sign, u / v = s.apply 1 * |u / v| ∧ RoundsTo s |u / v| (c / n) ∧
      RoundsTo s (|u| * w) (c * (1.0 / n)) := by
  rcases value?_cases hc with ⟨-, -, zero⟩ | ⟨s, m, e, pos, partsC, rfl⟩
  · exact absurd zero hu
  rcases value?_cases hn with ⟨-, -, zero⟩ | ⟨t, k, f, pos', partsN, rfl⟩
  · exact absurd zero hv
  have magnitude : |s.apply m * (2 : ℚ) ^ e / (t.apply k * (2 : ℚ) ^ f)| =
      m * 2 ^ e / (k * 2 ^ f) := by
    rw [abs_div, abs_apply, abs_apply]
  rw [abs_apply] at rounded
  refine ⟨s / t, ?_, ?_, ?_⟩
  · rw [magnitude, apply_div_apply]
  · rw [magnitude]
    exact div_rounds partsC partsN
  · obtain ⟨w', rounded', ⟨-, product⟩ | ⟨large, -⟩⟩ := mul_one_div_rounds partsC partsN
    · rw [abs_apply, rounded.unique rounded']
      exact product
    · exact absurd (rounded.unique rounded' ▸ small) large.not_gt

/-- Away from the subnormal numbers a number rounded twice is near the quotient. -/
theorem error_of_twice {x : Float} {u v w d : ℚ} (hu : u ≠ 0) (hv : v ≠ 0)
    (sign : u / v = s.apply 1 * |u / v|) (inner : Rounded |v|⁻¹ w) (outer : RoundsTo s (|u| * w) x)
    (normal : |v| ≤ 2 ^ 1022) (normal' : 2 ^ (-1022 : ℤ) ≤ |u| * w) (valued : value? x = some d) :
    |d - u / v| ≤ 2 ^ (-51 : ℤ) * |u / v| := by
  have positive : 0 < |u| * w := lt_of_lt_of_le (zpow_pos two_pos _) normal'
  have inverse : (2 : ℚ) ^ (-1022 : ℤ) ≤ |v|⁻¹ := by
    rw [zpow_neg]
    exact inv_anti₀ (abs_pos.mpr hv) normal
  obtain ⟨d', rounded, ⟨-, same⟩ | ⟨-, infinite⟩⟩ := outer.value positive
  · obtain rfl : d = s.apply 1 * d' := Option.some.inj (valued.symm.trans same)
    rw [sign, ← mul_sub, abs_mul, abs_mul, abs_apply_one, one_mul, one_mul, abs_abs, abs_div]
    exact inner.error_twice (abs_pos.mpr hu) (abs_pos.mpr hv) rounded inverse normal'
  · rw [value?, infinite] at valued
    cases valued

/-- A polynomial is divided by multiplying each coefficient by the rounded reciprocal. For numbers
with an exact reciprocal these are the quotients of the coefficients. For every other number
the reciprocal `w` is rounded first. Where it is too large no coefficient stays finite, though the
quotient may be. Elsewhere zeros, infinities and NaN are divided, and every other coefficient is
rounded a second time, which leaves it within two units in the last place of the quotient as long as
nothing is subnormal. -/
theorem divide_function (p : Poly Float) (n : Float) :
    ∃ q : Poly Float, Operator.divide.apply (.function p) (.number n) = .ok (.function q) ∧
      q.coefficients = p.coefficients.map (· * (1.0 / n)) ∧
      (ExactReciprocal n → q.coefficients = p.coefficients.map (· / n)) ∧
      ∀ v, value? n = some v → v ≠ 0 → ∃ w, Rounded |v|⁻¹ w ∧
        (2 ^ 1024 ≤ w → ∀ d ∈ q.coefficients, d.isFinite = false) ∧
        (w < 2 ^ 1024 → ∀ c ∈ p.coefficients,
          (value? c = none ∨ value? c = some 0 → c * (1.0 / n) = c / n) ∧
          ∀ u, value? c = some u → u ≠ 0 →
            (∃ s : Sign, u / v = s.apply 1 * |u / v| ∧ RoundsTo s |u / v| (c / n) ∧
              RoundsTo s (|u| * w) (c * (1.0 / n))) ∧
            (|v| ≤ 2 ^ 1022 → 2 ^ (-1022 : ℤ) ≤ |u| * w → ∀ d, value? (c * (1.0 / n)) = some d →
              |d - u / v| ≤ 2 ^ (-51 : ℤ) * |u / v|)) := by
  refine ⟨p.scale (1.0 / n), rfl, rfl, ?_, ?_⟩
  · intro reciprocal
    exact List.map_congr_left fun c _ => mul_one_div_of_exact reciprocal
  · intro v valued nonzero
    rcases value?_cases valued with ⟨-, -, zero⟩ | ⟨t, k, f, pos, parts, rfl⟩
    · exact absurd zero nonzero
    obtain ⟨w, rounded, size⟩ := one_div_parts parts
    refine ⟨w, by rwa [abs_apply], ?_, ?_⟩
    · intro large d product
      obtain ⟨c, -, rfl⟩ := List.mem_map.mp product
      rcases size with ⟨small, -⟩ | ⟨-, infinite⟩
      · exact absurd small large.not_gt
      · exact not_isFinite_mul infinite
    · intro small c _
      rcases size with ⟨-, m, e, pos', reciprocal, value⟩ | ⟨large, -⟩
      · refine ⟨mul_eq_div_of_finite parts reciprocal, fun u hu unz => ?_⟩
        obtain ⟨s, sign, once, twice⟩ := quotient_rounds hu valued unz nonzero
          (by rwa [abs_apply]) small
        refine ⟨⟨s, sign, once, twice⟩, fun normal normal' d hd => ?_⟩
        exact error_of_twice unz nonzero sign (by rwa [abs_apply]) twice normal normal' hd
      · exact absurd small large.not_gt

/-- Halving is exact. -/
theorem divide_function_halves : ExactReciprocal 2.0 ∧ ∃ q : Poly Float,
    Operator.divide.apply (.function ⟨[5.0, 3.0]⟩) (.number 2.0) = .ok (.function q) ∧
      q.coefficients = [2.5, 1.5] := by
  have two : ExactReciprocal 2.0 := by
    have valued : value? 2.0 = some ((2 : ℕ) : ℚ) :=
      (toCount?_eq_some_iff.mp (by decide +kernel)).2
    intro v hv
    obtain rfl : v = (2 : ℕ) := Option.some.inj (hv.symm.trans valued)
    exact .inr ⟨1, by decide, by norm_num⟩
  obtain ⟨q, divided, -, exact, -⟩ := divide_function ⟨[5.0, 3.0]⟩ 2.0
  exact ⟨two, q, divided, (exact two).trans (by decide +kernel)⟩

/-- Five, divided by three as a polynomial, is not the number five thirds; and zero, divided by
the least number, is not zero. -/
theorem divide_function_inexact :
    (∃ q : Poly Float, Operator.divide.apply (.function ⟨[5.0]⟩) (.number 3.0) = .ok (.function q) ∧
      q.coefficients ≠ [5.0 / 3.0]) ∧
    ∃ q : Poly Float, Operator.divide.apply (.function ⟨[0.0]⟩) (.number 5e-324) =
      .ok (.function q) ∧ q.coefficients ≠ [0.0 / 5e-324] :=
  ⟨⟨_, rfl, by decide +kernel⟩, _, rfl, by decide +kernel⟩

end PolyCalc.Number
