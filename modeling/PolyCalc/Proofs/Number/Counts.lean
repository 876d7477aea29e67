import PolyCalc.Proofs.Number.Fractions

/-!
Counts and the bits of numbers.

A bit pattern has a sign, an exponent and a fraction, and from these alone its value is read
off (`bitsValue?`). It is the value of the number (`value?_ofBits`), so the patterns that stand
for a count are known bit by bit. The other way round, a count becomes the number nearest to
it. That is the count itself below `2 ^ 53`; from there on rounding cannot get back below
`2 ^ 53`, and the number is no count any more (`toCount?_ofCount`).
-/

namespace PolyCalc.Number

open Float.Model (Format UnpackedFloat)
open Float.Model.UnpackedFloat

/-! ### Bit patterns -/

/-- The 11 bits of the exponent. -/
def exponentField (bits : UInt64) : ℕ := bits.toNat / 2 ^ 52 % 2 ^ 11

/-- The 52 bits of the fraction. -/
def fractionField (bits : UInt64) : ℕ := bits.toNat % 2 ^ 52

/-- The value of a bit pattern. The last exponent is that of infinities and NaN, the first that
of subnormal numbers, and all others have a first bit that is not written. -/
def bitsValue? (bits : UInt64) : Option ℚ :=
  let magnitude : ℚ :=
    if exponentField bits = 0 then fractionField bits * 2 ^ (-1074 : ℤ)
    else (2 ^ 52 + fractionField bits) * 2 ^ ((exponentField bits : ℤ) - 1075)
  if exponentField bits = 2047 then none
  else some (if bits.toNat < 2 ^ 63 then magnitude else -magnitude)

theorem toNat_unpackExponent (bits : UInt64) :
    (@unpackExponent .binary64 bits.toBitVec).toNat = exponentField bits := by
  show (bits.toNat >>> 52) % 2 ^ 11 = _
  rw [Nat.shiftRight_eq_div_pow, exponentField]

theorem toNat_unpackMantissa (bits : UInt64) :
    (@unpackMantissa .binary64 bits.toBitVec).toNat = fractionField bits := rfl

/-- The sign is the bit above all others. -/
theorem ofBitVec_unpackSign (bits : UInt64) :
    Sign.ofBitVec (@unpackSign .binary64 bits.toBitVec) =
      if bits.toNat < 2 ^ 63 then .positive else .negative := by
  have bit : (@unpackSign .binary64 bits.toBitVec).toNat = bits.toNat / 2 ^ 63 := by
    have range := bits.toNat_lt
    show (bits.toNat >>> 63) % 2 ^ 1 = _
    rw [Nat.shiftRight_eq_div_pow]
    omega
  rw [Sign.ofBitVec]
  by_cases low : bits.toNat < 2 ^ 63
  · have zero : @unpackSign .binary64 bits.toBitVec = 0#1 :=
      BitVec.eq_of_toNat_eq (bit.trans (Nat.div_eq_of_lt low))
    rw [if_pos low, if_pos zero]
  · rw [if_neg low, if_neg]
    intro zero
    have : bits.toNat / 2 ^ 63 = 0 := bit.symm.trans (congrArg BitVec.toNat zero)
    omega

theorem unpack_ofBits (bits : UInt64) :
    unpack (Float.ofBits bits) = UnpackedFloat.unpack .binary64 bits.toBitVec :=
  unpack_pack (fits_bits bits.toBitVec)

theorem apply_unpackSign (bits : UInt64) (m : ℕ) (e : ℤ) :
    (Sign.ofBitVec (@unpackSign .binary64 bits.toBitVec)).apply m * (2 : ℚ) ^ e =
      if bits.toNat < 2 ^ 63 then (m : ℚ) * 2 ^ e else -(m * 2 ^ e) := by
  rw [ofBitVec_unpackSign]
  split
  · rw [Sign.apply, Int.cast_natCast]
  · exact negative_apply m e

/-- A number has the value of its bits. -/
theorem value?_ofBits (bits : UInt64) : value? (Float.ofBits bits) = bitsValue? bits := by
  have exponent := toNat_unpackExponent bits
  have fraction := toNat_unpackMantissa bits
  rw [value?, unpack_ofBits, bitsValue?]
  delta UnpackedFloat.unpack
  dsimp only
  by_cases last : exponentField bits = 2047
  · have ones : @unpackExponent .binary64 bits.toBitVec = -1#11 :=
      BitVec.eq_of_toNat_eq (exponent.trans last)
    rw [if_pos last, if_pos ones]
    by_cases infinite : @unpackMantissa .binary64 bits.toBitVec = 0#52
    · rw [if_pos infinite]
    · rw [if_neg infinite]
  have notLast : @unpackExponent .binary64 bits.toBitVec ≠ -1#11 :=
    fun same => last (exponent.symm.trans (congrArg BitVec.toNat same))
  rw [if_neg last, if_neg notLast]
  by_cases least : exponentField bits = 0
  · have zero : @unpackExponent .binary64 bits.toBitVec = 0#11 :=
      BitVec.eq_of_toNat_eq (exponent.trans least)
    rw [if_pos least, if_pos zero]
    by_cases empty : fractionField bits = 0
    · have zeros : @unpackMantissa .binary64 bits.toBitVec = 0#52 :=
        BitVec.eq_of_toNat_eq (fraction.trans empty)
      rw [dif_pos zeros, empty]
      simp
    · have notZeros : @unpackMantissa .binary64 bits.toBitVec ≠ 0#52 :=
        fun same => empty (fraction.symm.trans (congrArg BitVec.toNat same))
      rw [dif_neg notZeros]
      dsimp only
      rw [apply_unpackSign, fraction, zero, bias_eq]
      rfl
  · have notLeast : @unpackExponent .binary64 bits.toBitVec ≠ 0#11 :=
      fun same => least (exponent.symm.trans (congrArg BitVec.toNat same))
    rw [if_neg least, if_neg notLeast]
    dsimp only
    rw [apply_unpackSign, toNat_implicit, fraction, exponent, bias_eq]
    norm_num

/-! ### Counts as numbers -/

theorem onGrid_two_pow (k : ℕ) : OnGrid (2 ^ k) :=
  ⟨1, k, by decide, by omega, by rw [zpow_natCast, Nat.cast_one, one_mul]⟩

/-- A count becomes its value rounded, or an infinity where that is too large. -/
theorem ofCount_value {n : ℕ} (pos : 0 < n) :
    ∃ w, Rounded n w ∧ (w < 2 ^ 1024 ∧ value? (ofCount n) = some w ∨
      2 ^ 1024 ≤ w ∧ value? (ofCount n) = none) := by
  obtain ⟨w, rounded, ⟨small, valued⟩ | ⟨huge, infinite⟩⟩ :=
    (ofCount_rounds pos).value (Nat.cast_pos.mpr pos)
  · refine ⟨w, rounded, .inl ⟨small, valued.trans ?_⟩⟩
    rw [Sign.apply, Int.cast_one, one_mul]
  · refine ⟨w, rounded, .inr ⟨huge, ?_⟩⟩
    rw [value?, infinite]

/-- From `2 ^ 53` on a count is not turned into a number below `2 ^ 53`. -/
theorem le_of_value?_ofCount {n : ℕ} {v : ℚ} (large : 2 ^ 53 ≤ n)
    (valued : value? (ofCount n) = some v) : 2 ^ 53 ≤ v := by
  have pos : 0 < n := Nat.lt_of_lt_of_le (by decide) large
  obtain ⟨w, rounded, ⟨-, same⟩ | ⟨-, infinite⟩⟩ := ofCount_value pos
  · obtain rfl : w = v := Option.some.inj (same.symm.trans valued)
    exact rounded.le_of_le (Nat.cast_pos.mpr pos) (onGrid_two_pow 53) (by exact_mod_cast large)
  · exact absurd (infinite.symm.trans valued) nofun

theorem toCount?_ofCount (n : ℕ) :
    toCount? (ofCount n) = if n ≤ 2 ^ 53 - 1 then some n else none := by
  split
  · rename_i small
    exact toCount?_eq_some_iff.mpr ⟨small, value?_ofCount (by omega)⟩
  · rename_i large
    rw [Option.eq_none_iff_forall_not_mem]
    intro m counted
    obtain ⟨bound, valued⟩ := toCount?_eq_some_iff.mp counted
    have above : (2 ^ 53 : ℚ) ≤ m := le_of_value?_ofCount (by omega) valued
    have : 2 ^ 53 ≤ m := by exact_mod_cast above
    omega

/-- No number is nearer to a positive value than the value rounded. -/
theorem Rounded.le_of_value {v w y : ℚ} {x : Float} (h : Rounded v w) (pos : 0 < v)
    (valued : value? x = some y) : |v - w| ≤ |v - y| := by
  rcases lt_or_ge 0 y with positive | negative
  · exact h.nearest pos (onGrid_of_value valued positive).1
  · -- Zero is nearer than what is below it.
    calc |v - w| ≤ |v - 0| := h.nearest pos onGrid_zero
      _ ≤ |v - y| := by
          rw [abs_of_pos (by linarith), abs_of_pos (by linarith)]
          linarith

/-- A count of 64 bits becomes a number with a value, and no number has one nearer to it. -/
theorem ofCount_nearest {n : ℕ} (bound : n < 2 ^ 64) :
    ∃ w, value? (ofCount n) = some w ∧
      ∀ x v, value? x = some v → |(n : ℚ) - w| ≤ |(n : ℚ) - v| := by
  rcases Nat.eq_zero_or_pos n with rfl | pos
  · refine ⟨0, value?_ofCount_zero, fun x v _ => ?_⟩
    rw [Nat.cast_zero, sub_zero, abs_zero]
    exact abs_nonneg _
  have positive : (0 : ℚ) < n := Nat.cast_pos.mpr pos
  obtain ⟨w, rounded, ⟨-, valued⟩ | ⟨huge, -⟩⟩ := ofCount_value pos
  · exact ⟨w, valued, fun x v => rounded.le_of_value positive⟩
  · have small := rounded.ge_of_ge positive (onGrid_two_pow 64) (by exact_mod_cast bound.le)
    exact absurd (huge.trans small) (pow_lt_pow_right₀ one_lt_two (by decide)).not_ge

/-! ### Both ways -/

theorem toCount?_ofBits_iff {bits : UInt64} {n : ℕ} :
    toCount? (Float.ofBits bits) = some n ↔ n ≤ 2 ^ 53 - 1 ∧ bitsValue? bits = some (n : ℚ) := by
  rw [toCount?_eq_some_iff, value?_ofBits]

/-- A bit pattern is the count `n` if and only if its value is `n` and `n` is at most
`2 ^ 53 - 1`, which holds of both zeros; no other pattern is a count. A count of 64 bits becomes
the number nearest to it, and this is the same count again up to `2 ^ 53 - 1`, and no count from
`2 ^ 53` on. -/
theorem count_exact :
    (∀ bits n, toCount? (Float.ofBits bits) = some n ↔
      n ≤ 2 ^ 53 - 1 ∧ bitsValue? bits = some (n : ℚ)) ∧
    (∀ bits, bits.toNat % 2 ^ 63 = 0 → toCount? (Float.ofBits bits) = some 0) ∧
    (∀ bits, toCount? (Float.ofBits bits) = none ↔
      ∀ n : ℕ, bitsValue? bits = some (n : ℚ) → 2 ^ 53 ≤ n) ∧
    ∀ n < 2 ^ 64,
      (∃ w, value? (ofCount n) = some w ∧
        ∀ bits v, bitsValue? bits = some v → |(n : ℚ) - w| ≤ |(n : ℚ) - v|) ∧
      (n ≤ 2 ^ 53 - 1 → toCount? (ofCount n) = some n) ∧
      (2 ^ 53 ≤ n → toCount? (ofCount n) = none) := by
  refine ⟨fun bits n => toCount?_ofBits_iff, ?_, ?_, ?_⟩
  · intro bits zero
    have exponent : exponentField bits = 0 := by
      rw [exponentField]
      omega
    have fraction : fractionField bits = 0 := by
      rw [fractionField]
      omega
    refine toCount?_ofBits_iff.mpr ⟨by decide, ?_⟩
    rw [bitsValue?, exponent, fraction]
    simp
  · intro bits
    rw [Option.eq_none_iff_forall_not_mem]
    constructor
    · intro none n valued
      by_contra small
      exact none n (toCount?_ofBits_iff.mpr ⟨by omega, valued⟩)
    · intro large n counted
      obtain ⟨small, valued⟩ := toCount?_ofBits_iff.mp counted
      have := large n valued
      omega
  · intro n bound
    obtain ⟨w, valued, nearest⟩ := ofCount_nearest bound
    refine ⟨⟨w, valued, fun bits v same => nearest _ v ((value?_ofBits bits).trans same)⟩, ?_, ?_⟩
    · intro small
      rw [toCount?_ofCount, if_pos small]
    · intro large
      rw [toCount?_ofCount, if_neg (by omega)]

/-- The largest count comes back. One more than `2 ^ 53` is between two numbers, and neither is a
count. -/
theorem count_exact_edge :
    (2 ^ 53 - 1 < 2 ^ 64 ∧ toCount? (ofCount (2 ^ 53 - 1)) = some (2 ^ 53 - 1)) ∧
      (2 ^ 53 + 1 < 2 ^ 64 ∧ toCount? (ofCount (2 ^ 53 + 1)) = none) ∧
      toCount? (Float.ofBits 0x8000000000000000) = some 0 := by
  obtain ⟨-, zeros, -, counts⟩ := count_exact
  refine ⟨⟨by decide, ?_⟩, ⟨by decide, ?_⟩, zeros _ (by decide)⟩
  · exact (counts _ (by decide)).2.1 (by decide)
  · exact (counts _ (by decide)).2.2 (by decide)

end PolyCalc.Number
