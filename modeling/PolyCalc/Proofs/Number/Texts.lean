import PolyCalc.Number.Decimal
import PolyCalc.Proofs.Number.Parts

/-!
Texts of numbers.

The text of a number is the mark of its sign and the text of its magnitude (`fixed_eq`).
Magnitudes have digits, points and letters, and no marks.
-/

namespace PolyCalc.Number

open Float.Model (UnpackedFloat)
open Float.Model.UnpackedFloat

/-! ### Digits -/

theorem isDigit_of_mem_toString {n : Nat} {c : Char} (member : c ∈ (toString n).toList) :
    c.isDigit = true := by
  rw [Nat.toString_eq_repr, Nat.toList_repr] at member
  exact Nat.isDigit_of_mem_toDigits (by decide) (by decide) member

theorem mem_pointed {units places : Nat} {c : Char} (member : c ∈ (pointed units places).toList) :
    c.isDigit = true ∨ c = '.' := by
  simp only [pointed, padded, String.toList_append, String.toList_ofList, List.mem_append,
    List.mem_replicate] at member
  rcases member with (whole | point) | ⟨-, rfl⟩ | rest
  · exact .inl (isDigit_of_mem_toString whole)
  · exact .inr (List.mem_singleton.mp point)
  · exact .inl rfl
  · exact .inl (isDigit_of_mem_toString rest)

/-! ### Marks -/

/-- The mark before the magnitude. NaN has none. -/
def mark : UnpackedFloat → String
  | .notANumber => ""
  | .infinity s | .zero s | .finite s _ _ _ => signMark s

theorem mark_of_neg {x : Float} (below : x < 0.0) : mark (unpack x) = "-" := by
  rw [neg_iff] at below
  generalize unpack x = u at below
  cases u with
  | notANumber | zero => cases below
  | infinity s | finite s m e pos =>
      cases s with
      | positive => cases below
      | negative => rfl

theorem mark_of_nonneg {x : Float} (above : 0.0 ≤ x) (other : unpack x ≠ .zero .negative) :
    mark (unpack x) = "" := by
  rw [nonneg_iff] at above
  generalize unpack x = u at above other
  cases u with
  | notANumber => rfl
  | zero s =>
      cases s with
      | positive => rfl
      | negative => exact absurd rfl other
  | infinity s | finite s m e pos =>
      cases s with
      | positive => rfl
      | negative => cases above

theorem eq_minus_of_mem_mark {u : UnpackedFloat} {c : Char} (member : c ∈ (mark u).toList) :
    c = '-' := by
  have signed {s : Sign} (member : c ∈ (signMark s).toList) : c = '-' := by
    cases s with
    | positive => cases member
    | negative => exact List.mem_singleton.mp member
  cases u with
  | notANumber => cases member
  | infinity | zero | finite => exact signed member

theorem fixed_eq (places : Nat) (x : Float) :
    fixed places x = mark (unpack x) ++ fixed places x.abs := by
  rw [fixed, fixed, unpack_abs]
  cases unpack x with
  | notANumber => rfl
  | infinity s | zero s | finite s m e pos =>
      show signMark s ++ _ = signMark s ++ ("" ++ _)
      rw [String.empty_append]

/-- There are no marks in the text of a magnitude. -/
theorem mem_fixed_abs {places : Nat} {x : Float} {c : Char}
    (member : c ∈ (fixed places x.abs).toList) : c.isAlphanum = true ∨ c = '.' := by
  have digits {units : Nat} (member : c ∈ ("" ++ pointed units places).toList) :
      c.isAlphanum = true ∨ c = '.' := by
    rw [String.empty_append] at member
    refine (mem_pointed member).imp_left fun digit => ?_
    rw [Char.isAlphanum, digit, Bool.or_true]
  rw [fixed, unpack_abs] at member
  generalize unpack x = u at member
  cases u with
  | notANumber =>
      have letters : "NaN".toList.all Char.isAlphanum = true := by decide
      exact .inl (List.all_eq_true.mp letters c member)
  | infinity s =>
      have letters : "inf".toList.all Char.isAlphanum = true := by decide
      exact .inl (List.all_eq_true.mp letters c member)
  | zero s => exact digits member
  | finite s m e pos => exact digits member

end PolyCalc.Number
