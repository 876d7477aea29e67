import Mathlib.Algebra.Order.Floor.Semifield
import PolyCalc.Number.Count
import PolyCalc.Proofs.Number.Operations

/-!
Whole parts and fractions.

A number that is not negative is cut off at its point without rounding (`value?_truncate`),
what is cut off is exact (`value?_fraction`), and the conversion to 64 bits gives the same
whole part (`toNat_toUInt64`). So the checks that a count has to pass, which are comparisons of
numbers, are comparisons of values: a number is a count if and only if its value is a natural
number up to `2 ^ 53 - 1` (`toCount?_eq_some_iff`).
-/

namespace PolyCalc.Number

open Float.Model (Format UnpackedFloat)
open Float.Model.UnpackedFloat

variable {x y : Float} {v w : ℚ} {s : Sign} {n : ℕ}

/-! ### Values on the grid -/

theorem onGrid_zero : OnGrid 0 := ⟨0, 0, by decide, by decide, by rw [Nat.cast_zero, zero_mul]⟩

theorem onGrid_natCast (small : n < 2 ^ 53) : OnGrid n :=
  ⟨n, 0, small, by decide, by rw [zpow_zero, mul_one]⟩

theorem Rounded.eq_of_onGrid (rounded : Rounded v w) (pos : 0 < v) (point : OnGrid v) : w = v :=
  (rounded.ge_of_ge pos point le_rfl).antisymm (rounded.le_of_le pos point le_rfl)

/-- A value on the grid is not changed by rounding. -/
theorem RoundsTo.exact (rounds : RoundsTo s v x) (pos : 0 < v) (point : OnGrid v)
    (small : v < 2 ^ 1024) : value? x = some (s.apply 1 * v) := by
  obtain ⟨w, rounded, ⟨-, valued⟩ | ⟨huge, -⟩⟩ := rounds.value pos
  · rw [valued, rounded.eq_of_onGrid pos point]
  · rw [rounded.eq_of_onGrid pos point] at huge
    exact absurd small huge.not_gt

theorem ofCount_rounds (pos : 0 < n) : RoundsTo .positive n (ofCount n) := by
  have scaled := round_rounds .positive pos 0
  rwa [zpow_zero, mul_one] at scaled

theorem value?_ofCount_zero : value? (ofCount 0) = some 0 := rfl

/-- A count below `2 ^ 53` is a number itself. -/
theorem value?_ofCount (small : n < 2 ^ 53) : value? (ofCount n) = some (n : ℚ) := by
  rcases Nat.eq_zero_or_pos n with rfl | pos
  · rw [Nat.cast_zero, value?_ofCount_zero]
  have bound : (n : ℚ) < 2 ^ 1024 :=
    calc (n : ℚ) < 2 ^ 53 := by exact_mod_cast small
      _ ≤ 2 ^ 1024 := pow_le_pow_right₀ one_le_two (by decide)
  have exact := (ofCount_rounds pos).exact (Nat.cast_pos.mpr pos) (onGrid_natCast small) bound
  rwa [Sign.apply, Int.cast_one, one_mul] at exact

/-! ### Whole parts -/

theorem zero_parts (valued : value? x = some 0) : ∃ s, unpack x = .zero s := by
  rcases value?_cases valued with ⟨s, parts, -⟩ | ⟨s, m, e, pos, -, zero⟩
  · exact ⟨s, parts⟩
  · exact absurd zero.symm (apply_ne_zero pos e)

theorem mul_two_zpow_ofNat (m k : ℕ) : (m : ℚ) * 2 ^ Int.ofNat k = (m * 2 ^ k : ℕ) := by
  rw [Int.ofNat_eq_natCast, zpow_natCast, Nat.cast_mul, Nat.cast_pow, Nat.cast_ofNat]

theorem floor_mul_two_zpow (m k : ℕ) : ⌊(m : ℚ) * 2 ^ Int.negSucc k⌋₊ = m / 2 ^ (k + 1) := by
  rw [zpow_negSucc, ← div_eq_mul_inv, ← Nat.floor_div_eq_div (K := ℚ), Nat.cast_pow,
    Nat.cast_ofNat]

/-- Cutting off what stands after the point is rounding down. -/
theorem value?_truncate (valued : value? x = some v) (nonneg : 0 ≤ v) :
    value? (truncate x) = some (⌊v⌋₊ : ℚ) := by
  rcases nonneg.eq_or_lt with rfl | positive
  · obtain ⟨s, parts⟩ := zero_parts valued
    have same : truncate x = x := by rw [truncate, whole, parts]
    rw [same, valued, Nat.floor_zero, Nat.cast_zero]
  · obtain ⟨m, e, pos, parts, rfl⟩ := positive_parts valued positive
    cases e with
    | ofNat k =>
        have same : truncate x = x := by rw [truncate, whole, parts]
        rw [same, valued, mul_two_zpow_ofNat, Nat.floor_natCast]
    | negSucc k =>
        have cut : truncate x = ofCount (m / 2 ^ (k + 1)) := by
          rw [truncate, whole, parts]
          rfl
        have fits : Fits (.finite .positive m (.negSucc k) pos) := parts ▸ fits_unpack x
        rw [cut, floor_mul_two_zpow]
        exact value?_ofCount ((Nat.div_le_self ..).trans_lt fits.1)

/-- A magnitude is converted to its whole part. -/
theorem roundToInt_positive (m : ℕ) (e : ℤ) :
    roundToInt .positive m e = ⌊(m : ℚ) * 2 ^ e⌋₊ := by
  obtain ⟨k, up⟩ : ∃ k : ℕ, (e - 0).toNat = k := ⟨_, rfl⟩
  obtain ⟨l, down⟩ : ∃ l : ℕ, (0 - (e - k)).toNat = l := ⟨_, rfl⟩
  have parts : roundToInt .positive m e =
      ((ExtendedMantissa.ofMantissaAndAccuracy (m * 2 ^ k) .exact >>> l).mantissa : ℤ) := by
    unfold roundToInt decreaseExponent shiftToExponent
    dsimp only
    rw [up, down, Nat.shiftLeft_eq]
    rfl
  have value : ((m * 2 ^ k : ℕ) : ℚ) / 2 ^ l = m * 2 ^ e := by
    have exponent : e = k - l := by omega
    rw [exponent, zpow_sub₀ two_ne_zero, zpow_natCast, zpow_natCast, Nat.cast_mul, Nat.cast_pow,
      Nat.cast_ofNat, mul_div_assoc]
  have measured := (Measures.exact (m * 2 ^ k)).shift l
  rw [value] at measured
  have nonneg : (0 : ℚ) ≤ m * 2 ^ e := mul_nonneg (Nat.cast_nonneg m) (zpow_pos two_pos e).le
  rw [parts, (Nat.floor_eq_iff nonneg).mpr measured.bounds]

/-- Below `2 ^ 64` the conversion to 64 bits gives the whole part. -/
theorem toNat_toUInt64 (valued : value? x = some v) (nonneg : 0 ≤ v) (small : v < 2 ^ 64) :
    x.toUInt64.toNat = ⌊v⌋₊ := by
  have converted : x.toUInt64 = .ofNatClamp (toInt 0 (↑UInt64.size - 1) (unpack x)).toNat := rfl
  have whole : toInt 0 (↑UInt64.size - 1) (unpack x) = ⌊v⌋₊ := by
    rcases nonneg.eq_or_lt with rfl | positive
    · obtain ⟨s, parts⟩ := zero_parts valued
      rw [parts, Nat.floor_zero]
      rfl
    · obtain ⟨m, e, pos, parts, rfl⟩ := positive_parts valued positive
      rw [parts]
      exact roundToInt_positive m e
  have fits : ⌊v⌋₊ < UInt64.size := by
    rw [Nat.floor_lt nonneg]
    exact_mod_cast small
  rw [converted, whole, Int.toNat_natCast, UInt64.toNat_ofNatClamp_of_lt fits]

/-! ### Fractions -/

theorem sub_of_zero (hx : value? x = some v) (hy : value? y = some 0) :
    value? (x - y) = some v := by
  have difference : x - y = pack (UnpackedFloat.sub .binary64 (unpack x) (unpack y)) := rfl
  obtain ⟨t, py⟩ := zero_parts hy
  rcases value?_cases hx with ⟨s, px, rfl⟩ | ⟨s, m, e, pos, px, rfl⟩
  · cases s <;> cases t <;> rw [difference, px, py] <;> rfl
  · have fits : Fits (.finite s m e pos) := px ▸ fits_unpack x
    have parts : unpack (x - y) = .finite s m e pos := by
      rw [difference, px, py]
      exact unpack_pack fits
    rw [value?, parts]

theorem sub_of_eq (hx : value? x = some v) (hy : value? y = some v) (positive : 0 < v) :
    value? (x - y) = some 0 := by
  obtain ⟨m, e, pos, px, rfl⟩ := positive_parts hx positive
  obtain ⟨m', e', pos', py, same⟩ := positive_parts hy positive
  have fits : Fits (.finite .positive m e pos) := px ▸ fits_unpack x
  have fits' : Fits (.finite .positive m' e' pos') := py ▸ fits_unpack y
  obtain ⟨rfl, rfl⟩ := fits.unique fits' same
  have difference : x - y = pack (UnpackedFloat.sub .binary64 (unpack x) (unpack y)) := rfl
  have cancelled : UnpackedFloat.sub .binary64 (.finite .positive m e pos)
      (.finite .positive m e pos') = .zero .positive := by
    show UnpackedFloat.normalize .binary64 (_ - _) (min e e) .positive = _
    rw [sub_self]
    rfl
  rw [difference, px, py, cancelled]
  rfl

/-- Digits of a mantissa that stand after the point are a mantissa with the same exponent. -/
theorem OnGrid.fraction (point : OnGrid v) : OnGrid (v - ⌊v⌋₊) := by
  obtain ⟨m, e, short, least, rfl⟩ := point
  cases e with
  | ofNat k =>
      rw [mul_two_zpow_ofNat, Nat.floor_natCast, sub_self]
      exact onGrid_zero
  | negSucc k =>
      refine ⟨m % 2 ^ (k + 1), _, (Nat.mod_le ..).trans_lt short, least, ?_⟩
      have unit : (2 : ℚ) ^ (k + 1) ≠ 0 := pow_ne_zero _ two_ne_zero
      have split : (m : ℚ) = 2 ^ (k + 1) * (m / 2 ^ (k + 1) : ℕ) + (m % 2 ^ (k + 1) : ℕ) := by
        exact_mod_cast (Nat.div_add_mod m (2 ^ (k + 1))).symm
      rw [floor_mul_two_zpow, zpow_negSucc]
      field_simp
      linarith

/-- What stands after the point is found without rounding. -/
theorem value?_fraction (valued : value? x = some v) (nonneg : 0 ≤ v) :
    value? (fraction x) = some (v - ⌊v⌋₊) := by
  have cut := value?_truncate valued nonneg
  rw [fraction]
  rcases Nat.eq_zero_or_pos ⌊v⌋₊ with none | some
  · rw [none, Nat.cast_zero] at cut ⊢
    rw [sub_zero]
    exact sub_of_zero valued cut
  rcases (Nat.floor_le nonneg).eq_or_lt with whole | less
  · rw [whole] at cut ⊢
    rw [sub_self]
    exact sub_of_eq valued cut ((Nat.cast_pos.mpr some).trans_le whole.le)
  · have below : v - ⌊v⌋₊ < 2 ^ 1024 :=
      calc v - ⌊v⌋₊ < 1 := by linarith [Nat.lt_floor_add_one v]
        _ ≤ 2 ^ 1024 := one_le_pow₀ one_le_two
    have positive : (0 : ℚ) < ⌊v⌋₊ := Nat.cast_pos.mpr some
    have point := (onGrid_of_value valued (positive.trans less)).1
    have rounds := sub_rounds valued cut positive less
    rw [rounds.exact (sub_pos.mpr less) point.fraction below, Sign.apply, Int.cast_one, one_mul]

/-! ### Counts -/

theorem value?_maxCount : value? maxCount = some (2 ^ 53 - 1 : ℕ) := by
  have parts : value? maxCount = some (Sign.positive.apply (2 ^ 53 - 1) * (2 : ℚ) ^ (0 : ℤ)) := rfl
  rw [parts]
  norm_num [Sign.apply]

/-- The four checks let through the natural numbers up to the largest count. -/
theorem checks_iff (valued : value? x = some v) :
    (!x.isFinite || x < 0.0 || x > maxCount || fraction x != 0.0) = false ↔
      ∃ n : ℕ, n ≤ 2 ^ 53 - 1 ∧ v = n := by
  have finite : x.isFinite = true := isFinite_iff_value.mpr ⟨v, valued⟩
  have whole (nonneg : 0 ≤ v) : (fraction x == 0.0) = true ↔ v - ⌊v⌋₊ = 0 :=
    beq_iff_value (value?_fraction valued nonneg) rfl
  rw [finite, Bool.not_true, Bool.false_or, Bool.or_eq_false_iff, Bool.or_eq_false_iff,
    decide_eq_false_iff_not, decide_eq_false_iff_not, neg_iff_value valued, not_lt, gt_iff_lt,
    lt_iff_value value?_maxCount valued, not_lt, bne, Bool.not_eq_false']
  constructor
  · rintro ⟨⟨nonneg, small⟩, none⟩
    have same : v = ⌊v⌋₊ := sub_eq_zero.mp ((whole nonneg).mp none)
    rw [same] at small
    exact ⟨⌊v⌋₊, by exact_mod_cast small, same⟩
  · rintro ⟨n, small, rfl⟩
    refine ⟨⟨Nat.cast_nonneg n, by exact_mod_cast small⟩, (whole (Nat.cast_nonneg n)).mpr ?_⟩
    rw [Nat.floor_natCast, sub_self]

theorem toCount?_of_value (small : n ≤ 2 ^ 53 - 1) (valued : value? x = some (n : ℚ)) :
    toCount? x = some n := by
  have bound : (n : ℚ) < 2 ^ 64 := by
    have : n < 2 ^ 64 := by omega
    exact_mod_cast this
  have passed := (checks_iff valued).mpr ⟨n, small, rfl⟩
  rw [toCount?, passed, toNat_toUInt64 valued (Nat.cast_nonneg n) bound, Nat.floor_natCast]
  rfl

/-- A number is a count if and only if its value is one that is not too large. -/
theorem toCount?_eq_some_iff :
    toCount? x = some n ↔ n ≤ 2 ^ 53 - 1 ∧ value? x = some (n : ℚ) := by
  refine ⟨fun count => ?_, fun ⟨small, valued⟩ => toCount?_of_value small valued⟩
  have passed : (!x.isFinite || x < 0.0 || x > maxCount || fraction x != 0.0) = false := by
    by_contra failed
    rw [toCount?, if_pos (Bool.eq_true_of_not_eq_false failed)] at count
    cases count
  have finite : x.isFinite = true := by
    by_contra infinite
    rw [Bool.eq_false_iff.mpr infinite] at passed
    cases passed
  obtain ⟨v, valued⟩ := isFinite_iff_value.mp finite
  obtain ⟨m, small, rfl⟩ := (checks_iff valued).mp passed
  obtain rfl : m = n := Option.some.inj ((toCount?_of_value small valued).symm.trans count)
  exact ⟨small, valued⟩

end PolyCalc.Number
