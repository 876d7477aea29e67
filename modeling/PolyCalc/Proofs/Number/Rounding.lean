import Mathlib.Algebra.Order.Floor.Semiring
import Mathlib.Data.Int.Log
import Mathlib.Data.Rat.Floor
import Mathlib.Tactic.FieldSimp
import Mathlib.Tactic.Ring
import PolyCalc.Proofs.Number.Value

/-!
Rounding to the nearest number.

Between two powers of two the numbers lie on a grid of multiples of a power of two, and below
the least normal number on the multiples of `2 ^ (-1074)` (`grid`). An operation rounds its
exact value to the nearest point of the grid, the even one of two that are equally near
(`HalfEven`), and a point at or above `2 ^ 1024` becomes infinite. `RoundsTo` says so of a
number, and there is one such lemma for each operation. So operations with the same exact
value have the same result (`RoundsTo.unique`), and rounding never passes a point of any grid
(`Rounded.le_of_le`, `Rounded.ge_of_ge`).
-/

namespace PolyCalc.Number

open Float.Model (Format UnpackedFloat totalExponent)
open Float.Model.UnpackedFloat

/-! ### Whole numbers -/

/-- `r` is the whole number nearest to `q`, the even one of two that are equally near. -/
def HalfEven (q : ℚ) (r : ℕ) : Prop := |q - r| ≤ 1 / 2 ∧ (|q - r| = 1 / 2 → Even r)

namespace HalfEven

variable {q q' : ℚ} {r r' : ℕ}

theorem natCast (n : ℕ) : HalfEven n n := by
  rw [HalfEven, sub_self, abs_zero]
  norm_num

/-- A larger number is not rounded to a smaller one. Two that meet half-way between `r'` and
`r' + 1` are equal, and both go to the even one. -/
theorem mono (h : HalfEven q r) (h' : HalfEven q' r') (le : q ≤ q') : r ≤ r' := by
  by_contra less
  have step : (r' : ℚ) + 1 ≤ r := by exact_mod_cast Nat.lt_of_not_le less
  have upper := (abs_le.mp h.1).1
  have lower := (abs_le.mp h'.1).2
  have half : q - r = -(1 / 2) := by linarith
  have half' : q' - r' = 1 / 2 := by linarith
  have next : r = r' + 1 := by
    have : (r : ℚ) = r' + 1 := by linarith
    exact_mod_cast this
  have even : Even r := h.2 (by rw [half, abs_neg, abs_of_pos (by norm_num)])
  have even' : Even r' := h'.2 (by rw [half', abs_of_pos (by norm_num)])
  rw [next, Nat.even_add_one] at even
  exact even even'

theorem unique (h : HalfEven q r) (h' : HalfEven q r') : r = r' :=
  Nat.le_antisymm (h.mono h' le_rfl) (h'.mono h le_rfl)

/-- No whole number is nearer. -/
theorem nearest (h : HalfEven q r) (z : ℤ) : |q - r| ≤ |q - z| := by
  by_cases same : z = r
  · rw [same, Int.cast_natCast]
  · have apart : 1 ≤ |(z : ℚ) - r| := by
      have : 1 ≤ |z - (r : ℤ)| := Int.one_le_abs (sub_ne_zero.mpr same)
      exact_mod_cast this
    have triangle := abs_sub_le (z : ℚ) q r
    rw [abs_sub_comm (z : ℚ) q] at triangle
    linarith [h.1]

end HalfEven

/-! ### Mantissas with two more bits -/

/-- The mantissa, a half if the first bit below it is set, and less than another half if there
are more bits make up the rational. -/
def Measures (em : ExtendedMantissa) (q : ℚ) : Prop :=
  ∃ rest : ℚ, q = em.mantissa + em.roundBit.toNat / 2 + rest ∧
    if em.stickyBit then 0 < rest ∧ rest < 1 / 2 else rest = 0

namespace Measures

variable {em : ExtendedMantissa} {q : ℚ}

theorem bounds (h : Measures em q) : em.mantissa ≤ q ∧ q < em.mantissa + 1 := by
  obtain ⟨m, round, sticky⟩ := em
  obtain ⟨rest, rfl, small⟩ := h
  cases round <;> cases sticky <;> norm_num at small ⊢ <;> constructor <;> linarith

/-- The two bits say which whole number is nearest. -/
theorem halfEven (h : Measures em q) : HalfEven q em.roundedMantissa := by
  obtain ⟨m, round, sticky⟩ := em
  obtain ⟨rest, value, small⟩ := h
  cases round with
  | false =>
      replace value : q = m + (0 : ℕ) / 2 + rest := value
      cases sticky with
      | false =>
          obtain rfl : rest = 0 := small
          rw [value, Nat.cast_zero, zero_div, add_zero, add_zero]
          exact .natCast m
      | true =>
          obtain ⟨above, below⟩ : 0 < rest ∧ rest < 1 / 2 := small
          show |q - m| ≤ 1 / 2 ∧ (|q - m| = 1 / 2 → Even m)
          rw [value, Nat.cast_zero, zero_div, add_zero, add_sub_cancel_left, abs_of_pos above]
          exact ⟨below.le, fun half => absurd half below.ne⟩
  | true =>
      replace value : q = m + (1 : ℕ) / 2 + rest := value
      rw [Nat.cast_one] at value
      cases sticky with
      | false =>
          obtain rfl : rest = 0 := small
          rw [add_zero] at value
          show |q - (m + m % 2 : ℕ)| ≤ 1 / 2 ∧ (_ → Even (m + m % 2))
          rcases Nat.mod_two_eq_zero_or_one m with even | odd
          · rw [even, Nat.add_zero, value, add_sub_cancel_left, abs_of_pos (by norm_num)]
            exact ⟨le_rfl, fun _ => Nat.even_iff.mpr even⟩
          · rw [odd, value, Nat.cast_add, Nat.cast_one, add_sub_add_left_eq_sub]
            refine ⟨by norm_num [abs_of_neg], fun _ => ?_⟩
            exact Nat.even_add_one.mpr (Nat.not_even_iff.mpr odd)
      | true =>
          obtain ⟨above, below⟩ : 0 < rest ∧ rest < 1 / 2 := small
          show |q - (m + 1 : ℕ)| ≤ 1 / 2 ∧ (|q - (m + 1 : ℕ)| = 1 / 2 → Even (m + 1))
          rw [value, Nat.cast_add, Nat.cast_one, abs_of_neg (by linarith)]
          exact ⟨by linarith, fun half => by linarith⟩

/-- The bit that is shifted out becomes the first one below the mantissa. -/
theorem half (h : Measures em q) : Measures em.shiftRightOne (q / 2) := by
  obtain ⟨m, round, sticky⟩ := em
  obtain ⟨rest, value, small⟩ := h
  replace value : q = m + round.toNat / 2 + rest := value
  refine ⟨round.toNat / 4 + rest / 2, ?_, ?_⟩
  · have bit : (m % 2 != 0).toNat = m % 2 := by
      rcases Nat.mod_two_eq_zero_or_one m with even | odd
      · rw [even]
        rfl
      · rw [odd]
        rfl
    have split : (m : ℚ) = 2 * (m / 2 : ℕ) + (m % 2 : ℕ) := by
      exact_mod_cast (Nat.div_add_mod m 2).symm
    show q / 2 = (m / 2 : ℕ) + (m % 2 != 0).toNat / 2 + _
    rw [bit, value]
    linarith
  · show if (round || sticky) = true then _ else _
    cases round <;> cases sticky <;> norm_num at small ⊢ <;>
      first | constructor <;> linarith | exact small

theorem shift (h : Measures em q) (n : ℕ) : Measures (em >>> n) (q / 2 ^ n) := by
  induction n with
  | zero =>
      rw [pow_zero, div_one]
      exact h
  | succ n ih =>
      rw [pow_succ, ← div_div]
      exact ih.half

theorem exact (m : ℕ) : Measures (.ofMantissaAndAccuracy m .exact) m := by
  refine ⟨0, ?_, rfl⟩
  show (m : ℚ) = m + (0 : ℕ) / 2 + 0
  simp

/-- A division with remainder measures the fraction. -/
theorem ofFraction {n d : ℕ} (pos : 0 < d) :
    Measures (.ofMantissaAndAccuracy (n / d) (accuracyOfFraction (n % d) d)) ((n : ℚ) / d) := by
  have positive : (0 : ℚ) < d := Nat.cast_pos.mpr pos
  have split : (n : ℚ) / d = (n / d : ℕ) + (n % d : ℕ) / d := by
    have whole : (n : ℚ) = d * (n / d : ℕ) + (n % d : ℕ) := by
      exact_mod_cast (Nat.div_add_mod n d).symm
    rw [div_eq_iff positive.ne', add_mul, div_mul_cancel₀ _ positive.ne']
    linarith
  have below : ((n % d : ℕ) : ℚ) / d < 1 := by
    rw [div_lt_one positive]
    exact_mod_cast Nat.mod_lt n pos
  rw [split]
  generalize n / d = m
  unfold accuracyOfFraction
  by_cases zero : n % d = 0
  · rw [if_pos zero, zero, Nat.cast_zero, zero_div, add_zero]
    exact exact m
  rw [if_neg zero]
  have above : (0 : ℚ) < (n % d : ℕ) / d :=
    div_pos (Nat.cast_pos.mpr (Nat.pos_of_ne_zero zero)) positive
  cases order : compare (2 * (n % d)) d with
  | lt =>
      have less : ((n % d : ℕ) : ℚ) / d < 1 / 2 := by
        rw [div_lt_div_iff₀ positive two_pos]
        exact_mod_cast (by have := compare_lt_iff_lt.mp order; omega : n % d * 2 < 1 * d)
      refine ⟨(n % d : ℕ) / d, ?_, above, less⟩
      show (m : ℚ) + _ = m + (0 : ℕ) / 2 + _
      rw [Nat.cast_zero, zero_div, add_zero]
  | eq =>
      have half : ((n % d : ℕ) : ℚ) / d = 1 / 2 := by
        rw [div_eq_div_iff positive.ne' two_ne_zero]
        exact_mod_cast (by have := compare_eq_iff_eq.mp order; omega : n % d * 2 = 1 * d)
      refine ⟨0, ?_, rfl⟩
      show (m : ℚ) + _ = m + (1 : ℕ) / 2 + 0
      rw [half, Nat.cast_one, add_zero]
  | gt =>
      have more : 1 / 2 < ((n % d : ℕ) : ℚ) / d := by
        rw [div_lt_div_iff₀ two_pos positive]
        exact_mod_cast (by have := compare_gt_iff_gt.mp order; omega : 1 * d < n % d * 2)
      refine ⟨(n % d : ℕ) / d - 1 / 2, ?_, by linarith, by linarith⟩
      show (m : ℚ) + _ = m + (1 : ℕ) / 2 + _
      rw [Nat.cast_one]
      linarith

end Measures

/-! ### Grids -/

/-- The exponent of the grid that a magnitude is rounded on. -/
def grid (v : ℚ) : ℤ := max (Int.log 2 v - 52) (-1074)

theorem log_eq {v : ℚ} {k : ℤ} (lower : 2 ^ k ≤ v) (upper : v < 2 ^ (k + 1)) : Int.log 2 v = k := by
  have pos : 0 < v := lt_of_lt_of_le (zpow_pos two_pos k) lower
  have le := (Int.zpow_le_iff_le_log (b := 2) (by decide) pos).mp (by exact_mod_cast lower)
  have lt := (Int.lt_zpow_iff_log_lt (b := 2) (by decide) pos).mp (by exact_mod_cast upper)
  omega

theorem two_zpow_log_le {v : ℚ} (pos : 0 < v) : (2 : ℚ) ^ Int.log 2 v ≤ v := by
  exact_mod_cast Int.zpow_log_le_self (b := 2) (by decide) pos

theorem lt_two_zpow_log (v : ℚ) : v < (2 : ℚ) ^ (Int.log 2 v + 1) := by
  exact_mod_cast Int.lt_zpow_succ_log_self (b := 2) (by decide) v

/-- The logarithm of a magnitude is read off the whole part of its mantissa. -/
theorem log_of_floor {v : ℚ} {m : ℕ} {e : ℤ} (pos : 0 < m) (lower : m ≤ v / 2 ^ e)
    (upper : v / 2 ^ e < m + 1) : Int.log 2 v = m.log2 + e := by
  have unit : (0 : ℚ) < 2 ^ e := zpow_pos two_pos e
  rw [le_div_iff₀ unit] at lower
  rw [div_lt_iff₀ unit] at upper
  apply log_eq
  · rw [zpow_add₀ two_ne_zero, zpow_natCast]
    have : (2 : ℚ) ^ m.log2 ≤ m := by exact_mod_cast Nat.log2_self_le pos.ne'
    exact (mul_le_mul_of_nonneg_right this unit.le).trans lower
  · rw [show (m.log2 : ℤ) + e + 1 = ((m.log2 + 1 : ℕ) : ℤ) + e by push_cast; ring,
      zpow_add₀ two_ne_zero, zpow_natCast]
    have : (m : ℚ) + 1 ≤ 2 ^ (m.log2 + 1) := by exact_mod_cast Nat.lt_log2_self
    exact upper.trans_le (mul_le_mul_of_nonneg_right this unit.le)

/-- The exponent that rounding aims at is that of the grid, if the mantissa is fine enough. -/
theorem targetExponent_grid {v : ℚ} {m : ℕ} {e : ℤ} (pos : 0 < v) (lower : m ≤ v / 2 ^ e)
    (upper : v / 2 ^ e < m + 1) (fine : e ≤ grid v) :
    Format.binary64.targetExponent (totalExponent m e) = grid v := by
  rw [targetExponent_eq, totalExponent, grid]
  rcases Nat.eq_zero_or_pos m with rfl | mantissa
  · -- All digits lie below the mantissa, which only happens on the finest grid.
    have unit : (0 : ℚ) < 2 ^ e := zpow_pos two_pos e
    rw [div_lt_iff₀ unit, Nat.cast_zero, zero_add, one_mul] at upper
    have less := (Int.lt_zpow_iff_log_lt (b := 2) (by decide) pos).mp (by exact_mod_cast upper)
    rw [grid] at fine
    rw [Nat.log2_zero]
    omega
  · rw [log_of_floor mantissa lower upper]
    omega

/-- A magnitude has less than 54 digits above its grid. -/
theorem div_grid_lt (v : ℚ) : v / 2 ^ grid v < 2 ^ 53 := by
  rw [div_lt_iff₀ (zpow_pos two_pos _), ← zpow_natCast, ← zpow_add₀ two_ne_zero]
  refine (lt_two_zpow_log v).trans_le (zpow_le_zpow_right₀ one_le_two ?_)
  rw [grid]
  omega

/-- Above the finest grid a magnitude has 53 digits. -/
theorem le_div_grid {v : ℚ} (pos : 0 < v) (coarse : grid v ≠ -1074) : 2 ^ 52 ≤ v / 2 ^ grid v := by
  rw [le_div_iff₀ (zpow_pos two_pos _), ← zpow_natCast, ← zpow_add₀ two_ne_zero]
  refine le_trans (zpow_le_zpow_right₀ one_le_two ?_) (two_zpow_log_le pos)
  rw [grid] at coarse ⊢
  omega

/-! ### Rounded parts -/

/-- The parts of `± r * 2 ^ g`, for a mantissa of 53 bits or the next one. -/
def settled (s : Sign) (r : ℕ) (g : ℤ) : UnpackedFloat :=
  if h : r = 0 then .zero s
  else if r < 2 ^ 53 then .finite s r g (Nat.pos_of_ne_zero h)
  else .finite s (2 ^ 52) (g + 1) (by decide)

theorem settled_zero (s : Sign) (g : ℤ) : settled s 0 g = .zero s := dif_pos rfl

theorem settled_short (s : Sign) {r : ℕ} (g : ℤ) (pos : 0 < r) (short : r < 2 ^ 53) :
    settled s r g = .finite s r g pos := by
  delta settled
  rw [dif_neg pos.ne', if_pos short]

theorem settled_carry (s : Sign) (g : ℤ) :
    settled s (2 ^ 53) g = .finite s (2 ^ 52) (g + 1) (by decide) := by
  delta settled
  rw [dif_neg (by decide), if_neg (by decide)]

theorem HalfEven.le_of_lt {q : ℚ} {r n : ℕ} (h : HalfEven q r) (lt : q < n) : r ≤ n :=
  h.mono (natCast n) lt.le

/-- A mantissa of 53 bits stays as it is. -/
theorem shift_short {r : ℕ} {g : ℤ} (short : r < 2 ^ 53) (least : -1074 ≤ g) :
    shiftToTargetExponent .binary64 r g .exact = (⟨r, false, false⟩, g) := by
  have log : r.log2 < 53 := by
    rcases Nat.eq_zero_or_pos r with rfl | pos
    · decide
    · exact (Nat.log2_lt pos.ne').mpr short
  have stay : (Format.binary64.targetExponent (totalExponent r g) - g).toNat = 0 := by
    rw [targetExponent_eq, totalExponent]
    omega
  rw [shiftToTargetExponent, shiftToExponent, stay]
  exact congrArg (Prod.mk _) (Int.add_zero g)

/-- The mantissa after the last one of 53 bits loses a zero. -/
theorem shift_carry {g : ℤ} (least : -1074 ≤ g) :
    shiftToTargetExponent .binary64 (2 ^ 53) g .exact = (⟨2 ^ 52, false, false⟩, g + 1) := by
  have move : (Format.binary64.targetExponent (totalExponent (2 ^ 53) g) - g).toNat = 1 := by
    rw [targetExponent_eq, totalExponent, Nat.log2_two_pow]
    omega
  rw [shiftToTargetExponent, shiftToExponent, move]
  rfl

/-- Whatever mantissa and bits measure a magnitude, it is rounded on its grid. -/
theorem roundWithAccuracy_eq {v : ℚ} {m : ℕ} {e : ℤ} {a : Accuracy} (s : Sign) (pos : 0 < v)
    (fine : e ≤ grid v) (measured : Measures (.ofMantissaAndAccuracy m a) (v / 2 ^ e)) :
    ∃ r, HalfEven (v / 2 ^ grid v) r ∧ r ≤ 2 ^ 53 ∧
      roundWithAccuracy .binary64 s m e a = settled s r (grid v) := by
  have mantissa : (ExtendedMantissa.ofMantissaAndAccuracy m a).mantissa = m := by
    cases a with
    | exact => rfl
    | inexact o => cases o <;> rfl
  obtain ⟨lower, upper⟩ := measured.bounds
  rw [mantissa] at lower upper
  have target := targetExponent_grid pos lower upper fine
  obtain ⟨k, same⟩ : ∃ k : ℕ, grid v = e + k := ⟨(grid v - e).toNat, by omega⟩
  have shift : (grid v - e).toNat = k := by omega
  have first : shiftToTargetExponent .binary64 m e a =
      (ExtendedMantissa.ofMantissaAndAccuracy m a >>> k, grid v) := by
    rw [shiftToTargetExponent, target, shiftToExponent, shift, same]
  have rounded : HalfEven (v / 2 ^ grid v)
      (ExtendedMantissa.ofMantissaAndAccuracy m a >>> k).roundedMantissa := by
    have shifted := (measured.shift k).halfEven
    rwa [div_div, ← zpow_natCast, ← zpow_add₀ two_ne_zero, ← same] at shifted
  have least : -1074 ≤ grid v := le_max_right ..
  have bound := rounded.le_of_lt (n := 2 ^ 53) (by exact_mod_cast div_grid_lt v)
  refine ⟨_, rounded, bound, ?_⟩
  delta roundWithAccuracy
  rw [first]
  dsimp only
  generalize (ExtendedMantissa.ofMantissaAndAccuracy m a >>> k).roundedMantissa = r at bound
  rcases Nat.lt_or_ge r (2 ^ 53) with short | carry
  · rw [shift_short short least]
    rcases Nat.eq_zero_or_pos r with rfl | mantissa
    · rw [settled_zero]
      rfl
    · rw [settled_short s _ mantissa short]
      exact dif_neg mantissa.ne'
  · obtain rfl : r = 2 ^ 53 := Nat.le_antisymm bound carry
    rw [shift_carry least, settled_carry]
    rfl

/-! ### Rounded magnitudes -/

/-- `w` is the point of its grid that is nearest to `v`. -/
def Rounded (v w : ℚ) : Prop := ∃ r : ℕ, HalfEven (v / 2 ^ grid v) r ∧ w = r * 2 ^ grid v

/-- A point of some grid. -/
def OnGrid (y : ℚ) : Prop := ∃ (m : ℕ) (e : ℤ), m < 2 ^ 53 ∧ -1074 ≤ e ∧ y = m * 2 ^ e

theorem OnGrid.two_mul {y : ℚ} (point : OnGrid y) : OnGrid (2 * y) := by
  obtain ⟨m, e, short, least, rfl⟩ := point
  refine ⟨m, e + 1, short, by omega, ?_⟩
  rw [zpow_add_one₀ two_ne_zero]
  ring

/-- The magnitude of a number is a point of its grid, below `2 ^ 1024`. -/
theorem Fits.onGrid {s : Sign} {m : ℕ} {e : ℤ} {pos : 0 < m} (fits : Fits (.finite s m e pos)) :
    OnGrid (m * 2 ^ e) ∧ (m : ℚ) * 2 ^ e < 2 ^ 1024 := by
  obtain ⟨short, -, least, greatest⟩ := fits
  refine ⟨⟨m, e, short, least, rfl⟩, ?_⟩
  calc (m : ℚ) * 2 ^ e < 2 ^ 53 * 2 ^ e :=
        mul_lt_mul_of_pos_right (by exact_mod_cast short) (zpow_pos two_pos e)
    _ ≤ 2 ^ 53 * 2 ^ (971 : ℤ) :=
        mul_le_mul_of_nonneg_left (zpow_le_zpow_right₀ one_le_two greatest) (by positivity)
    _ = 2 ^ 1024 := by
        rw [← zpow_natCast, ← zpow_natCast, ← zpow_add₀ two_ne_zero]
        rfl

/-- A positive value is a point of a grid, below `2 ^ 1024`. -/
theorem onGrid_of_value {x : Float} {v : ℚ} (valued : value? x = some v) (positive : 0 < v) :
    OnGrid v ∧ v < 2 ^ 1024 := by
  obtain ⟨m, e, pos, parts, rfl⟩ := positive_parts valued positive
  have fits : Fits (.finite .positive m e pos) := parts ▸ fits_unpack x
  exact fits.onGrid

/-- Finer points are below the magnitude, as far as they have no more than 53 digits. -/
theorem lt_of_finer {v : ℚ} {m : ℕ} {e : ℤ} (pos : 0 < v) (short : m < 2 ^ 53) (least : -1074 ≤ e)
    (finer : e < grid v) : (m : ℚ) * 2 ^ e < 2 ^ 52 * 2 ^ grid v ∧ 2 ^ 52 * 2 ^ grid v ≤ v := by
  have digits := le_div_grid pos (by omega)
  rw [le_div_iff₀ (zpow_pos two_pos _)] at digits
  refine ⟨?_, digits⟩
  calc (m : ℚ) * 2 ^ e < 2 ^ 53 * 2 ^ e :=
        mul_lt_mul_of_pos_right (by exact_mod_cast short) (zpow_pos two_pos e)
    _ = 2 ^ 52 * 2 ^ (e + 1) := by
        rw [zpow_add_one₀ two_ne_zero]
        ring
    _ ≤ 2 ^ 52 * 2 ^ grid v := by
        gcongr
        · exact one_le_two
        · omega

/-- A coarser point is a whole number of steps of the grid. -/
theorem coarser_eq {m : ℕ} {e g : ℤ} (coarser : g ≤ e) :
    ∃ n : ℕ, (m : ℚ) * 2 ^ e = n * 2 ^ g := by
  obtain ⟨k, rfl⟩ : ∃ k : ℕ, e = g + k := ⟨(e - g).toNat, by omega⟩
  refine ⟨m * 2 ^ k, ?_⟩
  rw [zpow_add₀ two_ne_zero, zpow_natCast]
  push_cast
  ring

namespace Rounded

variable {v w y : ℚ}

/-- Rounding does not pass a point of a grid on the way down. -/
theorem le_of_le (h : Rounded v w) (pos : 0 < v) (point : OnGrid y) (le : y ≤ v) : y ≤ w := by
  obtain ⟨r, rounded, rfl⟩ := h
  obtain ⟨m, e, short, least, rfl⟩ := point
  have unit : (0 : ℚ) < 2 ^ grid v := zpow_pos two_pos _
  rcases lt_or_ge e (grid v) with finer | coarser
  · obtain ⟨less, digits⟩ := lt_of_finer pos short least finer
    have enough : 2 ^ 52 ≤ r := by
      refine (HalfEven.natCast (2 ^ 52)).mono rounded ?_
      rw [le_div_iff₀ unit]
      exact_mod_cast digits
    refine less.le.trans (mul_le_mul_of_nonneg_right ?_ unit.le)
    exact_mod_cast enough
  · obtain ⟨n, same⟩ := @coarser_eq m _ _ coarser
    rw [same] at le ⊢
    have enough : n ≤ r := (HalfEven.natCast n).mono rounded ((le_div_iff₀ unit).mpr le)
    exact mul_le_mul_of_nonneg_right (by exact_mod_cast enough) unit.le

/-- Rounding does not pass a point of a grid on the way up. -/
theorem ge_of_ge (h : Rounded v w) (pos : 0 < v) (point : OnGrid y) (ge : v ≤ y) : w ≤ y := by
  obtain ⟨r, rounded, rfl⟩ := h
  obtain ⟨m, e, short, least, rfl⟩ := point
  have unit : (0 : ℚ) < 2 ^ grid v := zpow_pos two_pos _
  rcases lt_or_ge e (grid v) with finer | coarser
  · obtain ⟨less, digits⟩ := lt_of_finer pos short least finer
    linarith
  · obtain ⟨n, same⟩ := @coarser_eq m _ _ coarser
    rw [same] at ge ⊢
    have enough : r ≤ n := rounded.mono (HalfEven.natCast n) ((div_le_iff₀ unit).mpr ge)
    exact mul_le_mul_of_nonneg_right (by exact_mod_cast enough) unit.le

/-- No point of any grid is nearer. -/
theorem nearest (h : Rounded v w) (pos : 0 < v) (point : OnGrid y) : |v - w| ≤ |v - y| := by
  obtain ⟨r, rounded, rfl⟩ := h
  obtain ⟨m, e, short, least, rfl⟩ := point
  have unit : (0 : ℚ) < 2 ^ grid v := zpow_pos two_pos _
  have distance (n : ℕ) : |v - n * 2 ^ grid v| = |v / 2 ^ grid v - n| * 2 ^ grid v := by
    rw [← abs_of_pos unit, ← abs_mul, abs_of_pos unit, sub_mul, div_mul_cancel₀ _ unit.ne']
  have nearer (n : ℕ) : |v - r * 2 ^ grid v| ≤ |v - n * 2 ^ grid v| := by
    rw [distance, distance]
    have whole := rounded.nearest n
    rw [Int.cast_natCast] at whole
    exact mul_le_mul_of_nonneg_right whole unit.le
  rcases lt_or_ge e (grid v) with finer | coarser
  · -- The first point with 53 digits lies between the finer point and the magnitude.
    obtain ⟨less, digits⟩ := lt_of_finer pos short least finer
    refine (nearer (2 ^ 52)).trans ?_
    push_cast
    rw [abs_of_nonneg (by linarith), abs_of_nonneg (by linarith)]
    linarith
  · obtain ⟨n, same⟩ := @coarser_eq m _ _ coarser
    rw [same]
    exact nearer n

end Rounded

/-! ### Rounded numbers -/

/-- The number is `± v`, rounded to the nearest number. -/
def RoundsTo (s : Sign) (v : ℚ) (x : Float) : Prop :=
  ∃ r, HalfEven (v / 2 ^ grid v) r ∧ r ≤ 2 ^ 53 ∧ x = pack (settled s r (grid v))

/-- A number is its bits. -/
theorem model_ext {x y : Float.Model} (bits : x.toBits = y.toBits) : x = y := by
  cases x
  cases y
  cases bits
  rfl

theorem pack_congr {u u' : UnpackedFloat}
    (bits : UnpackedFloat.pack .binary64 u = UnpackedFloat.pack .binary64 u') :
    pack u = pack u' :=
  congrArg Float.ofModel (model_ext (congrArg UInt64.ofBitVec bits))

theorem unpack_pack_large (s : Sign) {m : ℕ} {e : ℤ} (pos : 0 < m) (large : 972 ≤ e) :
    unpack (pack (.finite s m e pos)) = .infinity s := by
  have bits : UnpackedFloat.pack .binary64 (.finite s m e pos) =
      UnpackedFloat.pack .binary64 (.infinity s) := by
    have biased : (e + Format.binary64.exponentBias + (52 : ℕ)).toNat = (e + 1075).toNat := by
      rw [bias_eq]
      omega
    delta UnpackedFloat.pack
    dsimp only
    rw [biased, if_pos (by omega)]
  rw [pack_congr bits]
  exact unpack_pack trivial

/-- The parts of a rounded magnitude fit, except that the exponent may be too large. -/
theorem settled_finite (s : Sign) {v : ℚ} {r : ℕ} (pos : 0 < v)
    (rounded : HalfEven (v / 2 ^ grid v) r) (bound : r ≤ 2 ^ 53) (nonzero : r ≠ 0) :
    ∃ m e mantissa, settled s r (grid v) = .finite s m e mantissa ∧ m < 2 ^ 53 ∧
      (2 ^ 52 ≤ m ∨ e = -1074) ∧ -1074 ≤ e ∧ (m : ℚ) * 2 ^ e = r * 2 ^ grid v := by
  have least : -1074 ≤ grid v := le_max_right ..
  rcases Nat.lt_or_ge r (2 ^ 53) with short | carry
  · refine ⟨r, grid v, _, settled_short s _ (Nat.pos_of_ne_zero nonzero) short, short, ?_, least,
      rfl⟩
    by_cases finest : grid v = -1074
    · exact .inr finest
    · refine .inl ((HalfEven.natCast (2 ^ 52)).mono rounded ?_)
      exact_mod_cast le_div_grid pos finest
  · obtain rfl : r = 2 ^ 53 := Nat.le_antisymm bound carry
    refine ⟨2 ^ 52, grid v + 1, _, settled_carry s _, by decide, .inl le_rfl, by omega, ?_⟩
    rw [zpow_add_one₀ two_ne_zero]
    push_cast
    ring

namespace RoundsTo

variable {s : Sign} {v : ℚ} {x y : Float}

/-- Only one number is nearest. -/
theorem unique (h : RoundsTo s v x) (h' : RoundsTo s v y) : x = y := by
  obtain ⟨r, rounded, -, rfl⟩ := h
  obtain ⟨r', rounded', -, rfl⟩ := h'
  rw [rounded.unique rounded']

/-- The number has the rounded value, or is infinite if that is too large. -/
theorem value (h : RoundsTo s v x) (pos : 0 < v) :
    ∃ w, Rounded v w ∧
      (w < 2 ^ 1024 ∧ value? x = some (s.apply 1 * w) ∨ 2 ^ 1024 ≤ w ∧ unpack x = .infinity s) := by
  obtain ⟨r, rounded, bound, rfl⟩ := h
  refine ⟨r * 2 ^ grid v, ⟨r, rounded, rfl⟩, ?_⟩
  by_cases zero : r = 0
  · subst zero
    left
    have fits : Fits (.zero s) := trivial
    rw [settled_zero, value?, unpack_pack fits, Nat.cast_zero, zero_mul, mul_zero]
    exact ⟨by positivity, rfl⟩
  obtain ⟨m, e, mantissa, parts, short, normal, least, same⟩ :=
    settled_finite s pos rounded bound zero
  rw [← same, parts]
  rcases lt_or_ge e 972 with inside | outside
  · left
    have fits : Fits (.finite s m e mantissa) := ⟨short, normal, least, by omega⟩
    refine ⟨fits.onGrid.2, ?_⟩
    rw [value?, unpack_pack fits]
    dsimp only
    cases s <;> simp [Sign.apply]
  · right
    refine ⟨?_, unpack_pack_large s mantissa outside⟩
    have long : 2 ^ 52 ≤ m := by omega
    calc (2 : ℚ) ^ 1024 = 2 ^ 52 * 2 ^ (972 : ℤ) := by
          rw [← zpow_natCast, ← zpow_natCast, ← zpow_add₀ two_ne_zero]
          rfl
      _ ≤ (m : ℚ) * 2 ^ e :=
          mul_le_mul (by exact_mod_cast long) (zpow_le_zpow_right₀ one_le_two outside)
            (zpow_pos two_pos _).le (Nat.cast_nonneg m)

end RoundsTo

end PolyCalc.Number
