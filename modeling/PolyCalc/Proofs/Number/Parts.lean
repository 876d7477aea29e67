import Mathlib.Algebra.Order.Ring.Nat
import PolyCalc.Number.Exact

/-!
The parts of a number.

Operations take numbers apart, compute with the parts and put the result together again.
Not all parts come from a number: a finite one has a mantissa of 53 bits, or a shorter one
and the least exponent (`Fits`). Parts that fit survive being put together
(`unpack_pack`), and rounding finds them again from any mantissa and exponent with the same
value (`round_exact`).
-/

namespace PolyCalc.Number

open Float.Model (Format UnpackedFloat totalExponent)
open Float.Model.UnpackedFloat

/-- The parts are those of a number. -/
def Fits : UnpackedFloat → Prop
  | .finite _ m e _ => m < 2 ^ 53 ∧ (2 ^ 52 ≤ m ∨ e = -1074) ∧ -1074 ≤ e ∧ e ≤ 971
  | _ => True

/-! ### Bits -/

theorem bias_eq : (Format.binary64.exponentBias : Int) = 1023 := rfl

theorem toNat_implicit (mantissa : BitVec 52) :
    (1#1 ++ mantissa).toNat = 2 ^ 52 + mantissa.toNat := by
  rw [BitVec.toNat_append, ← Nat.shiftLeft_add_eq_or_of_lt mantissa.isLt]
  rfl

theorem sign_packComponents (sign : Sign) (exponent : BitVec 11) (mantissa : BitVec 52) :
    Sign.ofBitVec (unpackSign (packComponents .binary64 sign exponent mantissa)) = sign := by
  unfold unpackSign packComponents BitVec.extractLsb
  rw [BitVec.extractLsb'_append_eq_of_le (by decide),
    BitVec.extractLsb'_append_eq_of_le (by decide)]
  cases sign <;> rfl

theorem finite_congr {s s' : Sign} {m m' : Nat} {e e' : Int} {pos : 0 < m} {pos' : 0 < m'}
    (sign : s = s') (mantissa : m = m') (exponent : e = e') :
    UnpackedFloat.finite s m e pos = .finite s' m' e' pos' := by
  subst sign mantissa exponent
  rfl

/-- The mantissa has a first bit that is not written. -/
theorem unpack_normal (sign : Sign) {exponent m : Nat} {e : Int} (pos : 0 < m)
    (long : 2 ^ 52 ≤ m) (short : m < 2 ^ 53) (first : 0 < exponent) (last : exponent < 2047)
    (biased : e = exponent - 1075) :
    UnpackedFloat.unpack .binary64
      (packComponents .binary64 sign (BitVec.ofNat 11 exponent) (BitVec.ofNat 52 m)) =
      .finite sign m e pos := by
  have exponent_eq : (BitVec.ofNat 11 exponent).toNat = exponent := by
    rw [BitVec.toNat_ofNat, Nat.mod_eq_of_lt (by omega)]
  have mantissa_eq : (1#1 ++ BitVec.ofNat 52 m).toNat = m := by
    rw [toNat_implicit, BitVec.toNat_ofNat]
    omega
  have notLast : BitVec.ofNat 11 exponent ≠ -1#11 := by
    intro same
    have : exponent = 2047 := exponent_eq.symm.trans (congrArg BitVec.toNat same)
    omega
  have notLeast : BitVec.ofNat 11 exponent ≠ 0#11 := by
    intro same
    have : exponent = 0 := exponent_eq.symm.trans (congrArg BitVec.toNat same)
    omega
  unfold UnpackedFloat.unpack
  dsimp only
  rw [unpackExponent_packComponents, if_neg notLast, if_neg notLeast]
  refine finite_congr (sign_packComponents ..) ?_ ?_
  · rw [unpackMantissa_packComponents, mantissa_eq]
  · rw [exponent_eq, bias_eq, biased]
    rfl

theorem unpack_subnormal (sign : Sign) {m : Nat} (pos : 0 < m) (short : m < 2 ^ 52) :
    UnpackedFloat.unpack .binary64 (packComponents .binary64 sign 0#11 (BitVec.ofNat 52 m)) =
      .finite sign m (-1074) pos := by
  have mantissa_eq : (BitVec.ofNat 52 m).toNat = m := by
    rw [BitVec.toNat_ofNat, Nat.mod_eq_of_lt short]
  have notLast : 0#11 ≠ -1#11 := by decide
  have notZero : BitVec.ofNat 52 m ≠ 0#52 := by
    intro same
    have : m = 0 := mantissa_eq.symm.trans (congrArg BitVec.toNat same)
    omega
  unfold UnpackedFloat.unpack
  dsimp only
  rw [unpackExponent_packComponents, if_neg notLast, if_pos rfl,
    dif_neg (by rw [unpackMantissa_packComponents]; exact notZero)]
  refine finite_congr (sign_packComponents ..) ?_ rfl
  rw [unpackMantissa_packComponents, mantissa_eq]

/-- Whatever the bits are, they stand for parts that fit. -/
theorem fits_bits (b : BitVec 64) : Fits (UnpackedFloat.unpack .binary64 b) := by
  have short := (@unpackMantissa .binary64 b).isLt
  have range := (@unpackExponent .binary64 b).isLt
  unfold UnpackedFloat.unpack
  dsimp only
  by_cases last : @unpackExponent .binary64 b = -1#11
  · rw [if_pos last]
    split <;> trivial
  have notLast : (@unpackExponent .binary64 b).toNat ≠ 2047 :=
    fun same => last (BitVec.eq_of_toNat_eq same)
  rw [if_neg last]
  by_cases least : @unpackExponent .binary64 b = 0#11
  · rw [if_pos least]
    by_cases zero : @unpackMantissa .binary64 b = 0#52
    · rw [dif_pos zero]
      trivial
    · rw [dif_neg zero]
      show _ ∧ (_ ∨ _) ∧ _ ∧ _
      rw [least, bias_eq]
      dsimp at *
      omega
  · have notLeast : (@unpackExponent .binary64 b).toNat ≠ 0 :=
      fun same => least (BitVec.eq_of_toNat_eq same)
    rw [if_neg least]
    show _ ∧ (_ ∨ _) ∧ _ ∧ _
    rw [bias_eq, toNat_implicit]
    dsimp at *
    omega

theorem fits_unpack (x : Float) : Fits (unpack x) := fits_bits x.toModel.toBits.toBitVec

theorem unpack_pack {u : UnpackedFloat} (fits : Fits u) : unpack (pack u) = u := by
  show UnpackedFloat.unpack .binary64 (UnpackedFloat.pack .binary64 u) = u
  cases u with
  | notANumber => rfl
  | infinity s => cases s <;> rfl
  | zero s => cases s <;> rfl
  | finite s m e pos =>
      obtain ⟨short, normal, least, greatest⟩ := fits
      have bits : Format.binary64.mantissaBits = 53 := rfl
      have biased : (e + Format.binary64.exponentBias + (52 : Nat)).toNat = (e + 1075).toNat := by
        rw [bias_eq]
        omega
      delta UnpackedFloat.pack
      dsimp only
      rw [biased, if_neg (by omega), bits]
      by_cases long : 2 ^ 52 ≤ m
      · have log : m.log2 = 52 := by
          have lower := (Nat.le_log2 (by omega)).mpr long
          have upper := (Nat.log2_lt (by omega)).mpr short
          omega
        rw [if_pos (by rw [log])]
        exact unpack_normal s pos long short (by omega) (by omega) (by omega)
      · have log : m.log2 < 52 := (Nat.log2_lt (by omega)).mpr (by omega)
        obtain rfl : e = -1074 := normal.resolve_left long
        rw [if_neg (by omega)]
        exact unpack_subnormal s pos (by omega)

theorem fits_abs {u : UnpackedFloat} (fits : Fits u) : Fits u.abs := by
  cases u <;> exact fits

theorem unpack_abs (x : Float) : unpack x.abs = (unpack x).abs :=
  unpack_pack (fits_abs (fits_unpack x))

/-! ### Comparisons with zero -/

theorem nonneg_iff {x : Float} : 0.0 ≤ x ↔ UnpackedFloat.le (.zero .positive) (unpack x) = true :=
  decide_eq_true_iff

theorem neg_iff {x : Float} : x < 0.0 ↔ (unpack x).lt (.zero .positive) = true :=
  decide_eq_true_iff

theorem not_nonneg_of_neg {x : Float} (below : x < 0.0) : ¬0.0 ≤ x := by
  rw [neg_iff] at below
  rw [nonneg_iff]
  generalize unpack x = u at below
  cases u with
  | notANumber | zero => cases below
  | infinity s | finite s m e pos =>
      cases s with
      | positive => cases below
      | negative => nofun

/-- Only NaN is neither below zero nor at or above it. -/
theorem neg_or_nonneg {x : Float} (ordered : unpack x ≠ .notANumber) : x < 0.0 ∨ 0.0 ≤ x := by
  rw [neg_iff, nonneg_iff]
  generalize unpack x = u at ordered
  cases u with
  | notANumber => exact absurd rfl ordered
  | zero s => exact .inr rfl
  | infinity s | finite s m e pos =>
      cases s with
      | positive => exact .inr rfl
      | negative => exact .inl rfl

/-! ### Rounding -/

theorem targetExponent_eq (t : Int) : Format.binary64.targetExponent t = max (t - 53) (-1074) := rfl

/-- The exponent of parts that fit is the one that rounding aims at. -/
theorem Fits.targetExponent {s : Sign} {m : Nat} {e : Int} {pos : 0 < m}
    (fits : Fits (.finite s m e pos)) :
    Format.binary64.targetExponent (totalExponent m e) = e := by
  obtain ⟨short, normal, least, -⟩ := fits
  have upper : m.log2 < 53 := (Nat.log2_lt (by omega)).mpr short
  rw [targetExponent_eq, totalExponent]
  rcases normal with long | rfl
  · have lower := (Nat.le_log2 (by omega)).mpr long
    omega
  · omega

theorem log2_mul_two_pow {n : Nat} (pos : 0 < n) (k : Nat) : (n * 2 ^ k).log2 = n.log2 + k := by
  induction k with
  | zero => rw [Nat.pow_zero, Nat.mul_one, Nat.add_zero]
  | succ k ih =>
      have pos' : n * 2 ^ k ≠ 0 := (Nat.mul_pos pos (Nat.two_pow_pos k)).ne'
      rw [Nat.pow_succ, ← Nat.mul_assoc, Nat.mul_comm _ 2, Nat.log2_two_mul pos', ih, Nat.add_assoc]

/-- Parts that fit are left where they are. -/
theorem Fits.shift {s : Sign} {m : Nat} {e : Int} {pos : 0 < m}
    (fits : Fits (.finite s m e pos)) :
    shiftToTargetExponent .binary64 m e .exact = (⟨m, false, false⟩, e) := by
  have stay : (e - e).toNat = 0 := by omega
  rw [shiftToTargetExponent, fits.targetExponent, shiftToExponent, stay]
  exact congrArg (Prod.mk _) (Int.add_zero e)

theorem Fits.rounded {s : Sign} {m : Nat} {e : Int} {pos : 0 < m}
    (fits : Fits (.finite s m e pos)) :
    roundWithAccuracy .binary64 s m e .exact = .finite s m e pos := by
  have even : (⟨m, false, false⟩ : ExtendedMantissa).roundedMantissa = m := rfl
  unfold roundWithAccuracy
  rw [fits.shift]
  dsimp only
  rw [even, fits.shift]
  exact dif_neg (Nat.ne_of_gt pos)

/-- Nothing is lost in rounding what parts that fit can express. -/
theorem round_exact {s : Sign} {n k : Nat} {e : Int} {pos : 0 < n * 2 ^ k}
    (fits : Fits (.finite s (n * 2 ^ k) e pos)) :
    UnpackedFloat.round .binary64 s n (e + k) = .finite s (n * 2 ^ k) e pos := by
  have same : totalExponent n (e + k) = totalExponent (n * 2 ^ k) e := by
    simp only [totalExponent, log2_mul_two_pow (Nat.pos_of_mul_pos_right pos)]
    omega
  have shift : (e + k - e).toNat = k := by omega
  have exponent : e + k - k = e := by omega
  unfold UnpackedFloat.round decreaseExponent
  dsimp only
  rw [same, fits.targetExponent, shift, exponent, Nat.shiftLeft_eq]
  exact fits.rounded

end PolyCalc.Number
