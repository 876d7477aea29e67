import PolyCalc.Proofs.Number.Fractions
import PolyCalc.Proofs.Number.Texts

/-!
Whole numbers.

A number with a whole value below `2 ^ 53` (`IsWhole`) is written with the digits of its value
and nothing else (`IsWhole.text`). The shortest decimal is searched for on grids of tens, from
coarse to fine. A candidate that is not the number itself is at least four quarters away from
it, and at most two quarters still round to it. So a grid has a hit if and only if the number
is on it, and the digits that are found are those of the number without some zeros at its end.
-/

namespace PolyCalc.Number

open Float.Model (UnpackedFloat)
open Float.Model.UnpackedFloat

/-! ### Digits -/

/-- Zeros at the end of a number multiply it by powers of ten. -/
theorem toString_mul_ten_pow {d : Nat} (pos : 0 < d) (zeros : Nat) :
    toString (d * 10 ^ zeros) = toString d ++ String.ofList (List.replicate zeros '0') := by
  rw [← String.toList_inj, String.toList_append, String.toList_ofList]
  simp only [Nat.toString_eq_repr, Nat.toList_repr]
  induction zeros with
  | zero => simp
  | succ zeros ih =>
      have large : 10 ≤ d * 10 ^ zeros * 10 := by
        have := Nat.mul_pos pos (Nat.pow_pos (n := zeros) (show 0 < 10 by decide))
        omega
      rw [Nat.pow_succ, ← Nat.mul_assoc, Nat.toDigits_of_base_le (by decide) large,
        Nat.mul_div_cancel _ (by decide), Nat.mul_mod_left, ih, List.append_assoc,
        List.replicate_succ']
      rfl

theorem Decimal.text_of_place {d : Nat} (pos : 0 < d) (zeros : Nat) :
    (⟨d, zeros⟩ : Decimal).text = toString (d * 10 ^ zeros) :=
  (toString_mul_ten_pow pos zeros).symm

/-! ### The shortest decimal -/

/-- A candidate is the number itself, or too far away to round to it. -/
theorem holds_spanOf {m c w : Nat} {e : Int} (pos : 0 < m)
    (apart : c * w = 4 * m ∨ c * w + 4 ≤ 4 * m ∨ 4 * m + 4 ≤ c * w) :
    (spanOf m e).holds (1, w) c = decide (c * w = 4 * m) := by
  rw [Bool.eq_iff_iff, decide_eq_true_iff]
  simp only [Span.holds, spanOf, Nat.mul_one]
  split <;> split <;> simp only [Bool.and_eq_true, decide_eq_true_iff] <;> omega

theorem quarterIn_whole (k p : Nat) : quarterIn (-k) p = (1, 2 ^ (k + 2) * 10 ^ p) := by
  have low : (-(k : Int) - 2).toNat = 0 := by omega
  have high : (2 - -(k : Int)).toNat = k + 2 := by omega
  have noTens : (-(p : Int)).toNat = 0 := by omega
  simp only [quarterIn, low, high, noTens, Int.toNat_natCast]
  rfl

theorem quarters_whole (n k : Nat) : 4 * (n * 2 ^ k) = n * 2 ^ (k + 2) := by
  rw [Nat.pow_add, Nat.mul_left_comm, Nat.mul_comm 4]

/-- Only the number itself rounds to a whole number. -/
theorem holds_whole {n k p : Nat} (pos : 0 < n) (c : Nat) :
    (spanOf (n * 2 ^ k) (-k)).holds (1, 2 ^ (k + 2) * 10 ^ p) c = decide (c * 10 ^ p = n) := by
  have units : c * (2 ^ (k + 2) * 10 ^ p) = c * 10 ^ p * 2 ^ (k + 2) := by
    rw [Nat.mul_left_comm, Nat.mul_comm]
  have large : 4 ≤ 2 ^ (k + 2) := by
    rw [Nat.pow_add]
    exact Nat.le_mul_of_pos_left 4 (Nat.two_pow_pos k)
  generalize 10 ^ p = ten at units ⊢
  have apart (a b : Nat) (less : a < b) : a * 2 ^ (k + 2) + 4 ≤ b * 2 ^ (k + 2) := by
    have := Nat.mul_le_mul_right (2 ^ (k + 2)) (Nat.succ_le_of_lt less)
    rw [Nat.succ_mul] at this
    omega
  rw [holds_spanOf (Nat.mul_pos pos (Nat.two_pow_pos k)), quarters_whole, units]
  · congr 1
    rw [eq_iff_iff]
    exact Nat.mul_left_inj (by omega)
  · rw [quarters_whole, units]
    rcases Nat.lt_trichotomy (c * ten) n with less | same | more
    · exact .inr (.inl (apart _ _ less))
    · exact .inl (by rw [same])
    · exact .inr (.inr (apart _ _ more))

theorem onGrid?_whole {n k p : Nat} (pos : 0 < n) :
    onGrid? (n * 2 ^ k) (-k) p = if 10 ^ p ∣ n then some (n / 10 ^ p) else none := by
  have below : 4 * (n * 2 ^ k) * 1 / (2 ^ (k + 2) * 10 ^ p) = n / 10 ^ p := by
    rw [Nat.mul_one, quarters_whole, Nat.mul_comm n, Nat.mul_div_mul_left _ _ (Nat.two_pow_pos _)]
  -- Of the two neighbours only the lower one can be the number.
  have past : (n / 10 ^ p + 1) * 10 ^ p ≠ n := by
    have := Nat.lt_div_mul_add (a := n) (Nat.pow_pos (n := p) (show 0 < 10 by decide))
    rw [Nat.succ_mul]
    omega
  simp only [onGrid?, quarterIn_whole, below, holds_whole pos, decide_eq_false past]
  by_cases dvd : 10 ^ p ∣ n
  · rw [decide_eq_true (Nat.div_mul_cancel dvd), if_pos dvd]
  · have other : n / 10 ^ p * 10 ^ p ≠ n := fun same => dvd ⟨_, (Nat.mul_comm .. ▸ same).symm⟩
    rw [decide_eq_false other, if_neg dvd]

theorem text_firstOnGrid_of_dvd {n k p : Nat} (pos : 0 < n) (dvd : 10 ^ p ∣ n) (finer : Nat) :
    (firstOnGrid (n * 2 ^ k) (-k) (finer + 1) p).text = toString n := by
  have digits : 0 < n / 10 ^ p := Nat.div_pos (Nat.le_of_dvd pos dvd) (Nat.pow_pos (by decide))
  simp only [firstOnGrid, onGrid?_whole pos, if_pos dvd]
  rw [Decimal.text_of_place digits, Nat.div_mul_cancel dvd]

/-- The search stops at the last power of ten that divides the number. -/
theorem text_firstOnGrid {n k p finer : Nat} (pos : 0 < n) (enough : p < finer) :
    (firstOnGrid (n * 2 ^ k) (-k) finer p).text = toString n := by
  induction p generalizing finer with
  | zero =>
      obtain ⟨finer, rfl⟩ := Nat.exists_eq_succ_of_ne_zero (Nat.ne_of_gt enough)
      exact text_firstOnGrid_of_dvd pos (Nat.one_dvd n) finer
  | succ p ih =>
      obtain ⟨finer, rfl⟩ := Nat.exists_eq_succ_of_ne_zero (Nat.ne_zero_of_lt enough)
      by_cases dvd : 10 ^ (p + 1) ∣ n
      · exact text_firstOnGrid_of_dvd pos dvd finer
      · have next : ((p + 1 : Nat) : Int) - 1 = p := by omega
        simp only [firstOnGrid, onGrid?_whole pos, if_neg dvd, next]
        exact ih (Nat.lt_of_succ_lt_succ enough)

theorem text_shortest {n : Nat} (pos : 0 < n) (small : n < 2 ^ 53) (k : Nat) :
    (shortest (n * 2 ^ k) (-k)).text = toString n := by
  have bits : n.log2 < 53 := (Nat.log2_lt (Nat.ne_of_gt pos)).mpr small
  obtain ⟨p, place, enough⟩ : ∃ p : Nat, topPlace (n * 2 ^ k) (-k) = p ∧ p < 20 := by
    rw [topPlace, log2_mul_two_pow pos]
    exact ⟨((n.log2 + 1) * 30103 / 100000 + 1), by omega, by omega⟩
  rw [shortest, place]
  exact text_firstOnGrid pos enough

/-! ### Whole values -/

/-- Cutting off a fraction that is zero changes nothing. -/
theorem unpack_truncate {x : Float} {s : Sign} {n k : Nat} {pos : 0 < n * 2 ^ k}
    (parts : unpack x = .finite s (n * 2 ^ k) (-k) pos) : unpack (truncate x) = unpack x := by
  have fits := fits_unpack x
  rw [parts] at fits
  cases k with
  | zero =>
      rw [truncate, whole, parts]
      exact parts
  | succ k =>
      rw [truncate, whole, parts]
      show unpack (nearest s (n * 2 ^ (k + 1) / 2 ^ (k + 1)) 0) = _
      have exponent : (0 : Int) = -(k + 1 : Nat) + (k + 1 : Nat) := by omega
      rw [Nat.mul_div_cancel n (Nat.two_pow_pos _), nearest, exponent, round_exact fits,
        unpack_pack fits]

/-- The number has the whole value `z`, which is below `2 ^ 53`. -/
structure IsWhole (x : Float) (z : ℤ) : Prop where
  small : z.natAbs < 2 ^ 53
  valued : value? x = some (z : ℚ)

namespace IsWhole

variable {x : Float} {z : ℤ}

theorem of_toCount? {n : Nat} (count : toCount? x = some n) : IsWhole x n := by
  obtain ⟨small, valued⟩ := toCount?_eq_some_iff.mp count
  refine ⟨?_, valued⟩
  rw [Int.natAbs_natCast]
  omega

theorem abs (h : IsWhole x z) : IsWhole x.abs z.natAbs := by
  refine ⟨h.small, ?_⟩
  rw [value?, unpack_abs]
  rcases value?_cases h.valued with ⟨s, parts, zero⟩ | ⟨s, m, e, pos, parts, valued⟩
  · rw [parts, Int.cast_eq_zero.mp zero]
    rfl
  · rw [parts]
    exact congrArg some (whole_apply pos valued).2.symm

theorem text {n : Nat} (h : IsWhole x n) (pos : 0 < n) : Number.text x = toString n := by
  obtain ⟨k, pos', parts⟩ := parts_of_whole h.valued (by omega) h.small
  rw [Number.text, parts]
  show signMark (signOf n) ++ (shortest (n * 2 ^ k) (-k)).text = toString n
  rw [text_shortest pos h.small, signOf, if_neg (by omega)]
  exact String.empty_append

/-- A whole number has no fraction to cut off. -/
theorem truncate (h : IsWhole x z) : (Number.truncate x == x) = true := by
  have cut : value? (Number.truncate x) = value? x := by
    by_cases zero : z = 0
    · rcases value?_cases h.valued with ⟨s, parts, -⟩ | ⟨s, m, e, pos, -, valued⟩
      · rw [Number.truncate, Number.whole, parts]
      · rw [zero, Int.cast_zero] at valued
        exact absurd valued.symm (apply_ne_zero pos e)
    · obtain ⟨k, pos, parts⟩ := parts_of_whole h.valued zero h.small
      rw [value?, value?, unpack_truncate parts]
  exact (beq_iff_value (cut.trans h.valued) h.valued).mpr rfl

end IsWhole

end PolyCalc.Number
