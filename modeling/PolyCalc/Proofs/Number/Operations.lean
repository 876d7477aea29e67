import PolyCalc.Proofs.Number.Rounding

/-!
Products, quotients and differences of numbers.

Each operation on finite numbers is the exact operation on their values, rounded once
(`mul_rounds`, `div_rounds`, `sub_rounds`, `round_rounds`). All that is to be shown of one
is that the mantissa it computes is not coarser than the grid of its result.
-/

namespace PolyCalc.Number

open Float.Model (Format UnpackedFloat totalExponent)
open Float.Model.UnpackedFloat

/-- A magnitude that is given by a mantissa with enough bits below it is rounded. -/
theorem roundsTo_of_measures {v : ℚ} {m : ℕ} {e : ℤ} {a : Accuracy} (s : Sign) (pos : 0 < v)
    (fine : e ≤ grid v) (measured : Measures (.ofMantissaAndAccuracy m a) (v / 2 ^ e)) :
    RoundsTo s v (pack (roundWithAccuracy .binary64 s m e a)) := by
  obtain ⟨r, rounded, bound, parts⟩ := roundWithAccuracy_eq s pos fine measured
  exact ⟨r, rounded, bound, by rw [parts]⟩

/-- A whole mantissa is not coarser than its grid if it has 53 bits. -/
theorem le_grid_of_long {m : ℕ} {e : ℤ} (long : 2 ^ 52 ≤ m) : e ≤ grid (m * 2 ^ e) := by
  have pos : 0 < m := lt_of_lt_of_le (by decide) long
  have log : Int.log 2 ((m : ℚ) * 2 ^ e) = m.log2 + e := by
    apply log_of_floor pos <;> rw [mul_div_cancel_right₀ _ (zpow_ne_zero e two_ne_zero)]
    exact lt_add_one _
  have bits : 52 ≤ m.log2 := (Nat.le_log2 pos.ne').mpr long
  rw [grid, log]
  omega

theorem roundsTo_of_long (s : Sign) {m : ℕ} {e : ℤ} (pos : 0 < m)
    (fine : e ≤ grid (m * 2 ^ e)) :
    RoundsTo s (m * 2 ^ e) (pack (roundWithAccuracy .binary64 s m e .exact)) := by
  refine roundsTo_of_measures s (magnitude_pos pos e) fine ?_
  rw [mul_div_cancel_right₀ _ (zpow_ne_zero e two_ne_zero)]
  exact .exact m

variable {x y : Float} {s s' : Sign} {m n : ℕ} {e f : ℤ} {pos : 0 < m} {pos' : 0 < n}

/-! ### Products -/

theorem mul_rounds (hx : unpack x = .finite s m e pos) (hy : unpack y = .finite s' n f pos') :
    RoundsTo (s * s') (m * 2 ^ e * (n * 2 ^ f)) (x * y) := by
  have product : x * y = pack (roundWithAccuracy .binary64 (s * s') (m * n) (e + f) .exact) := by
    show pack (UnpackedFloat.mul .binary64 (unpack x) (unpack y)) = _
    rw [hx, hy]
    rfl
  have value : (m : ℚ) * 2 ^ e * (n * 2 ^ f) = (m * n : ℕ) * 2 ^ (e + f) := by
    rw [zpow_add₀ two_ne_zero]
    push_cast
    ring
  have fits : Fits (.finite s m e pos) := hx ▸ fits_unpack x
  have fits' : Fits (.finite s' n f pos') := hy ▸ fits_unpack y
  rw [product, value]
  refine roundsTo_of_long _ (Nat.mul_pos pos pos') ?_
  by_cases long : 2 ^ 52 ≤ m * n
  · exact le_grid_of_long long
  · -- Without 53 bits both factors have the least exponent.
    have least : -1074 ≤ grid ((m * n : ℕ) * 2 ^ (e + f)) := le_max_right ..
    have first : ¬2 ^ 52 ≤ m := fun h => long (h.trans (Nat.le_mul_of_pos_right m pos'))
    have second : ¬2 ^ 52 ≤ n := fun h => long (h.trans (Nat.le_mul_of_pos_left n pos))
    have := fits.2.1.resolve_left first
    have := fits'.2.1.resolve_left second
    omega

/-! ### Quotients -/

/-- The quotient of two mantissas is at least half of what their lengths say. -/
theorem log_div_ge (pos : 0 < m) (pos' : 0 < n) :
    (m.log2 : ℤ) - n.log2 - 1 + (e - f) ≤ Int.log 2 ((m : ℚ) * 2 ^ e / (n * 2 ^ f)) := by
  have positive := div_pos (magnitude_pos pos e) (magnitude_pos pos' f)
  rw [← Int.zpow_le_iff_le_log (b := 2) (by decide) positive,
    le_div_iff₀ (magnitude_pos pos' f)]
  have lower : (2 : ℚ) ^ m.log2 ≤ m := by exact_mod_cast Nat.log2_self_le pos.ne'
  have upper : (n : ℚ) ≤ 2 ^ (n.log2 + 1) := by exact_mod_cast Nat.lt_log2_self.le
  calc ((2 : ℕ) : ℚ) ^ ((m.log2 : ℤ) - n.log2 - 1 + (e - f)) * (n * 2 ^ f)
      ≤ ((2 : ℕ) : ℚ) ^ ((m.log2 : ℤ) - n.log2 - 1 + (e - f)) * (2 ^ (n.log2 + 1) * 2 ^ f) :=
        mul_le_mul_of_nonneg_left (mul_le_mul_of_nonneg_right upper (zpow_pos two_pos f).le)
          (zpow_pos (Nat.cast_pos.mpr two_pos) _).le
    _ = 2 ^ m.log2 * 2 ^ e := by
        rw [Nat.cast_ofNat, ← zpow_natCast, ← zpow_natCast, ← zpow_add₀ two_ne_zero,
          ← zpow_add₀ two_ne_zero, ← zpow_add₀ two_ne_zero]
        congr 1
        push_cast
        ring
    _ ≤ m * 2 ^ e := mul_le_mul_of_nonneg_right lower (zpow_pos two_pos e).le

theorem div_rounds (hx : unpack x = .finite s m e pos) (hy : unpack y = .finite s' n f pos') :
    RoundsTo (s / s') (m * 2 ^ e / (n * 2 ^ f)) (x / y) := by
  obtain ⟨t, target⟩ : ∃ t, t = min (e - f)
      (Format.binary64.targetExponent (totalExponent m e - totalExponent n f)) := ⟨_, rfl⟩
  obtain ⟨k, same⟩ : ∃ k : ℕ, e - f - t = k := ⟨(e - f - t).toNat, by omega⟩
  have quotient : x / y = pack (roundWithAccuracy .binary64 (s / s') (m * 2 ^ k / n) t
      (accuracyOfFraction (m * 2 ^ k % n) n)) := by
    show pack (UnpackedFloat.div .binary64 (unpack x) (unpack y)) = _
    rw [hx, hy, target]
    show pack (roundWithAccuracy .binary64 (s / s')
      (m <<< (e - f - _).toNat / n) _ (accuracyOfFraction (m <<< (e - f - _).toNat % n) n)) = _
    rw [← target, same, Int.toNat_natCast, Nat.shiftLeft_eq]
  have positive := div_pos (magnitude_pos pos e) (magnitude_pos pos' f)
  rw [quotient]
  refine roundsTo_of_measures _ positive ?_ ?_
  · have := @log_div_ge m n e f pos pos'
    rw [targetExponent_eq, totalExponent, totalExponent] at target
    rw [grid]
    omega
  · have value : (m : ℚ) * 2 ^ e / (n * 2 ^ f) / 2 ^ t = (m * 2 ^ k : ℕ) / n := by
      have nonzero : (n : ℚ) ≠ 0 := Nat.cast_ne_zero.mpr pos'.ne'
      have power : (2 : ℚ) ^ e = 2 ^ f * 2 ^ t * 2 ^ k := by
        rw [← zpow_natCast, ← zpow_add₀ two_ne_zero, ← zpow_add₀ two_ne_zero]
        congr 1
        omega
      have unit := zpow_ne_zero f (two_ne_zero (α := ℚ))
      have unit' := zpow_ne_zero t (two_ne_zero (α := ℚ))
      rw [power]
      push_cast
      field_simp
    rw [value]
    exact .ofFraction pos'

/-! ### Rounding and differences -/

theorem round_rounds (s : Sign) (pos : 0 < m) (e : ℤ) :
    RoundsTo s (m * 2 ^ e) (nearest s m e) := by
  have log : Int.log 2 ((m : ℚ) * 2 ^ e) = m.log2 + e := by
    apply log_of_floor pos <;> rw [mul_div_cancel_right₀ _ (zpow_ne_zero e two_ne_zero)]
    exact lt_add_one _
  have target : Format.binary64.targetExponent (totalExponent m e) = grid (m * 2 ^ e) := by
    rw [targetExponent_eq, totalExponent, grid, log]
    omega
  obtain ⟨k, shift⟩ : ∃ k : ℕ, (e - grid (m * 2 ^ e)).toNat = k := ⟨_, rfl⟩
  have value : (m : ℚ) * 2 ^ e = (m * 2 ^ k : ℕ) * 2 ^ (e - k) := by
    rw [zpow_sub₀ two_ne_zero, zpow_natCast]
    push_cast
    field_simp
  have parts : nearest s m e =
      pack (roundWithAccuracy .binary64 s (m * 2 ^ k) (e - k) .exact) := by
    unfold nearest UnpackedFloat.round decreaseExponent
    dsimp only
    rw [target, shift, Nat.shiftLeft_eq]
  rw [parts, value]
  refine roundsTo_of_long s (Nat.mul_pos pos (Nat.two_pow_pos k)) ?_
  rw [← value]
  omega

theorem normalize_natCast (pos : 0 < m) (e : ℤ) :
    pack (UnpackedFloat.normalize .binary64 (m : ℤ) e .positive) = nearest .positive m e := by
  have order : compare (m : ℤ) 0 = .gt := compare_gt_iff_gt.mpr (by omega)
  delta UnpackedFloat.normalize
  rw [order]
  rfl

/-- A smaller positive number is taken from a larger one. -/
theorem sub_rounds {v w : ℚ} (hx : value? x = some v) (hy : value? y = some w) (positive : 0 < w)
    (less : w < v) : RoundsTo .positive (v - w) (x - y) := by
  obtain ⟨m, e, pos, px, rfl⟩ := positive_parts hx (positive.trans less)
  obtain ⟨n, f, pos', py, rfl⟩ := positive_parts hy positive
  -- Both mantissas are written for the smaller exponent.
  obtain ⟨g, smaller⟩ : ∃ g, min e f = g := ⟨_, rfl⟩
  obtain ⟨k, first⟩ : ∃ k : ℕ, e = g + k := ⟨(e - g).toNat, by omega⟩
  obtain ⟨l, second⟩ : ∃ l : ℕ, f = g + l := ⟨(f - g).toNat, by omega⟩
  have scaled {m k : ℕ} {e : ℤ} (h : e = g + k) : (m : ℚ) * 2 ^ e = (m * 2 ^ k : ℕ) * 2 ^ g := by
    rw [h, zpow_add₀ two_ne_zero, zpow_natCast]
    push_cast
    ring
  rw [scaled first, scaled second] at less ⊢
  have order : n * 2 ^ l < m * 2 ^ k := by
    exact_mod_cast lt_of_mul_lt_mul_right less (zpow_pos two_pos g).le
  have difference : x - y = nearest .positive (m * 2 ^ k - n * 2 ^ l) g := by
    show pack (UnpackedFloat.sub .binary64 (unpack x) (unpack y)) = _
    rw [px, py]
    show pack (UnpackedFloat.normalize .binary64
      (Sign.positive.apply ↑(m <<< (e - min e f).toNat) -
        Sign.positive.apply ↑(n <<< (f - min e f).toNat)) (min e f) .positive) = _
    rw [smaller, show (e - g).toNat = k by omega, show (f - g).toNat = l by omega,
      Nat.shiftLeft_eq, Nat.shiftLeft_eq, Sign.apply, Sign.apply, ← Int.ofNat_sub order.le]
    exact normalize_natCast (Nat.sub_pos_of_lt order) g
  rw [difference, ← sub_mul, ← Nat.cast_sub order.le]
  exact round_rounds .positive (Nat.sub_pos_of_lt order) g

end PolyCalc.Number
