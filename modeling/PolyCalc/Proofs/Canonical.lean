import Mathlib.Data.List.Sort
import Mathlib.Data.List.SplitBy
import PolyCalc.Number.Literal
import PolyCalc.Poly.Text
import PolyCalc.Proofs.Collect
import PolyCalc.Proofs.Number.Whole

/-!
The canonical text of a polynomial.

The terms of a text stand next to each other without a separator. Every term begins with a
sign and has none after it, so a text can be cut before each sign (`splitBy_termChars`). In a
term the digits of the coefficient end where the variable begins, and digits after the
variable belong to the power. So the terms are read back from the text (`read?_polyChars`).

Main statement: polynomials with whole coefficients have the same text if and only if they
have the same coefficients, up to zeros (`text_determines`).
-/

namespace PolyCalc.Poly

open Number

/-! ### Terms -/

/-- The text of a power of the variable with a whole coefficient. -/
def termChars (t : Nat × ℤ) : List Char :=
  (if t.2 < 0 then '-' else '+') ::
    ((if t.2.natAbs ≠ 1 ∨ t.1 = 0 then (toString t.2.natAbs).toList else []) ++
      (powerText t.1).toList)

/-- The text of a polynomial with the given terms. -/
def polyChars (terms : List (Nat × ℤ)) : List Char :=
  'f' :: '(' :: 'x' :: ')' :: '=' :: if terms.isEmpty then ['0'] else (terms.map termChars).flatten

/-! ### Reading -/

/-- The power of the variable. Without the variable it is 0. -/
def readPower? : List Char → Option Nat
  | [] => some 0
  | ['x'] => some 1
  | 'x' :: '^' :: digits =>
      if digits.isEmpty || !digits.all Char.isDigit then none else some (digitsValue digits)
  | _ => none

/-- The magnitude of a coefficient. It may be left out before the variable. -/
def readMagnitude? (digits : List Char) (power : Nat) : Option Nat :=
  if digits.isEmpty then if power = 0 then none else some 1 else some (digitsValue digits)

/-- A whole number with the given sign. -/
def readSigned? (sign : Char) (magnitude : Nat) : Option ℤ :=
  if sign = '+' then some magnitude else if sign = '-' then some (-magnitude) else none

/-- The power and the coefficient of a term. -/
def readTerm? : List Char → Option (Nat × ℤ)
  | [] => none
  | sign :: body => do
      let power ← readPower? (body.dropWhile Char.isDigit)
      let magnitude ← readMagnitude? (body.takeWhile Char.isDigit) power
      let coefficient ← readSigned? sign magnitude
      return (power, coefficient)

def isSign (c : Char) : Bool := c == '+' || c == '-'

theorem isSign_of_isDigit {c : Char} (digit : c.isDigit = true) : isSign c = false := by
  rw [isSign, Bool.or_eq_false_iff, beq_eq_false_iff_ne, beq_eq_false_iff_ne]
  constructor <;> rintro rfl <;> cases digit

/-- The terms of a text. It is cut before every sign. -/
def readTerms? (cs : List Char) : Option (List (Nat × ℤ)) :=
  (cs.splitBy fun _ next => !isSign next).mapM readTerm?

/-- The terms of a polynomial, from its text. -/
def read? (text : String) : Option (List (Nat × ℤ)) :=
  match text.toList with
  | 'f' :: '(' :: 'x' :: ')' :: '=' :: body => if body = ['0'] then some [] else readTerms? body
  | _ => none

/-! ### Terms are read back -/

theorem digitsValue_toString (n : Nat) : digitsValue (toString n).toList = n := by
  rw [Nat.toString_eq_repr, Nat.toList_repr]
  exact Nat.ofDigitChars_ten_toDigits

theorem powerText_add_two (power : Nat) :
    (powerText (power + 2)).toList = 'x' :: '^' :: (toString (power + 2)).toList := by
  show ("x^" ++ toString (power + 2)).toList = _
  rw [String.toList_append]
  rfl

theorem isEmpty_toString (n : Nat) : (toString n).toList.isEmpty = false := by
  rw [Nat.toString_eq_repr, Nat.toList_repr, List.isEmpty_eq_false_iff]
  exact Nat.toDigits_ne_nil

theorem readPower?_powerText (power : Nat) : readPower? (powerText power).toList = some power := by
  match power with
  | 0 => rfl
  | 1 => rfl
  | power + 2 =>
      have digits : (toString (power + 2)).toList.all Char.isDigit = true :=
        List.all_eq_true.mpr fun _ => isDigit_of_mem_toString
      rw [powerText_add_two, readPower?, digits, isEmpty_toString, digitsValue_toString]
      rfl

/-- The digits of a coefficient end where the power begins. -/
theorem powerText_not_digit (power : Nat) :
    (powerText power).toList.takeWhile Char.isDigit = [] ∧
      (powerText power).toList.dropWhile Char.isDigit = (powerText power).toList := by
  match power with
  | 0 => exact ⟨rfl, rfl⟩
  | 1 => exact ⟨rfl, rfl⟩
  | power + 2 =>
      rw [powerText_add_two]
      exact ⟨rfl, rfl⟩

theorem readSigned?_sign (z : ℤ) : readSigned? (if z < 0 then '-' else '+') z.natAbs = some z := by
  split
  · show some (-(z.natAbs : ℤ)) = some z
    congr 1
    omega
  · show some (z.natAbs : ℤ) = some z
    congr 1
    omega

theorem readTerm?_signed {digits : List Char} {power : Nat} {z : ℤ}
    (all : ∀ c ∈ digits, c.isDigit = true)
    (magnitude : readMagnitude? digits power = some z.natAbs) :
    readTerm? ((if z < 0 then '-' else '+') :: (digits ++ (powerText power).toList)) =
      some (power, z) := by
  obtain ⟨stop, rest⟩ := powerText_not_digit power
  simp only [readTerm?, List.takeWhile_append_of_pos all, List.dropWhile_append_of_pos all, stop,
    rest, List.append_nil, readPower?_powerText, Option.bind_eq_bind, Option.bind_some, magnitude,
    readSigned?_sign]
  rfl

theorem readTerm?_termChars (t : Nat × ℤ) : readTerm? (termChars t) = some t := by
  obtain ⟨power, z⟩ := t
  simp only [termChars]
  by_cases written : z.natAbs ≠ 1 ∨ power = 0
  · rw [if_pos written]
    refine readTerm?_signed (fun _ => isDigit_of_mem_toString) ?_
    rw [readMagnitude?, isEmpty_toString, if_neg Bool.false_ne_true, digitsValue_toString]
  · obtain ⟨one, powered⟩ := not_or.mp written
    rw [if_neg written]
    refine readTerm?_signed (fun _ => nofun) ?_
    rw [readMagnitude?, List.isEmpty_nil, if_pos rfl, if_neg powered, not_not.mp one]

/-! ### Texts are cut before signs -/

theorem mem_powerText {power : Nat} {c : Char} (member : c ∈ (powerText power).toList) :
    isSign c = false := by
  match power with
  | 0 => cases member
  | 1 =>
      rw [List.mem_singleton.mp member]
      rfl
  | power + 2 =>
      rw [powerText_add_two, List.mem_cons, List.mem_cons] at member
      rcases member with rfl | rfl | digit
      · rfl
      · rfl
      · exact isSign_of_isDigit (isDigit_of_mem_toString digit)

theorem isSign_sign (z : ℤ) : isSign (if z < 0 then '-' else '+') = true := by
  split <;> rfl

/-- A term begins with a sign and has no other. -/
theorem termChars_eq (t : Nat × ℤ) :
    ∃ sign body, termChars t = sign :: body ∧ isSign sign = true ∧
      ∀ c ∈ body, isSign c = false := by
  refine ⟨_, _, rfl, isSign_sign t.2, fun c member => ?_⟩
  rcases List.mem_append.mp member with digit | power
  · split at digit
    · exact isSign_of_isDigit (isDigit_of_mem_toString digit)
    · cases digit
  · exact mem_powerText power

theorem splitBy_termChars (terms : List (Nat × ℤ)) :
    (terms.map termChars).flatten.splitBy (fun _ next => !isSign next) = terms.map termChars := by
  apply List.splitBy_flatten
  · intro empty
    obtain ⟨t, -, nothing⟩ := List.mem_map.mp empty
    cases nothing
  · intro chars member
    obtain ⟨t, -, rfl⟩ := List.mem_map.mp member
    obtain ⟨sign, body, same, -, plain⟩ := termChars_eq t
    rw [same]
    apply List.Pairwise.isChain
    refine List.pairwise_cons.mpr ⟨fun c inside => by rw [plain c inside]; rfl, ?_⟩
    exact List.pairwise_of_forall_mem_list fun _ _ c inside => by rw [plain c inside]; rfl
  · apply List.Pairwise.isChain
    refine List.pairwise_of_forall_mem_list fun first inside next member => ?_
    obtain ⟨t, -, rfl⟩ := List.mem_map.mp inside
    obtain ⟨u, -, rfl⟩ := List.mem_map.mp member
    refine ⟨List.cons_ne_nil _ _, List.cons_ne_nil _ _, ?_⟩
    exact congrArg not (isSign_sign u.2)

theorem readTerms?_termChars (terms : List (Nat × ℤ)) :
    readTerms? (terms.map termChars).flatten = some terms := by
  rw [readTerms?, splitBy_termChars]
  induction terms with
  | nil => rfl
  | cons t terms ih => rw [List.map_cons, List.mapM_cons, readTerm?_termChars, ih]; rfl

theorem read?_polyChars {text : String} {terms : List (Nat × ℤ)}
    (written : text.toList = polyChars terms) : read? text = some terms := by
  rw [read?, written, polyChars]
  cases terms with
  | nil => rfl
  | cons t terms =>
      have other : ((t :: terms).map termChars).flatten ≠ ['0'] := by
        intro zero
        have sign := isSign_sign t.2
        rw [(List.cons.inj zero).1] at sign
        cases sign
      exact (if_neg other).trans (readTerms?_termChars (t :: terms))

/-! ### Terms of polynomials -/

/-- The coefficients other than zero with their powers, from the highest one down. -/
def kept (p : Poly Float) : List (Float × Nat) :=
  p.coefficients.zipIdx.reverse.filter fun t => t.1 != 0.0

/-- The whole number that a number stands for. -/
def wholeOf (x : Float) : ℤ := ((value? x).getD 0).num

/-- The powers and the coefficients of a polynomial with whole coefficients. -/
def terms (p : Poly Float) : List (Nat × ℤ) := p.kept.map fun t => (t.2, wholeOf t.1)

theorem text_eq (p : Poly Float) :
    p.text = "f(x)=" ++ if p.kept.isEmpty then "0"
      else String.join (p.kept.map fun t => termText t.1 t.2) := rfl

theorem mem_kept {p : Poly Float} {c : Float} {power : Nat} :
    (c, power) ∈ p.kept ↔ p.coefficients[power]? = some c ∧ (c != 0.0) = true := by
  rw [kept, List.mem_filter, List.mem_reverse, List.mk_mem_zipIdx_iff_getElem?]

theorem terms_descending (p : Poly Float) : p.terms.Pairwise fun t u => u.1 < t.1 := by
  have ascending : p.coefficients.zipIdx.Pairwise fun t u => t.2 < u.2 := by
    rw [← List.pairwise_map (f := Prod.snd), List.zipIdx_map_snd]
    exact List.pairwise_lt_range'
  rw [terms, List.pairwise_map]
  exact (List.pairwise_reverse.mpr ascending).filter _

section

variable {x : Float} {z : ℤ}

theorem wholeOf_eq (valued : value? x = some (z : ℚ)) : wholeOf x = z := by
  rw [wholeOf, valued, Option.getD_some, Rat.num_intCast]

theorem bne_zero_iff (valued : value? x = some (z : ℚ)) : (x != 0.0) = true ↔ z ≠ 0 := by
  have zero : value? 0.0 = some ((0 : ℤ) : ℚ) := rfl
  rw [bne, Bool.not_eq_true', ← Bool.not_eq_true, beq_iff_value valued zero]
  exact_mod_cast Iff.rfl

theorem beq_one_iff {n : Nat} (valued : value? x = some (n : ℚ)) : (x == 1.0) = true ↔ n = 1 := by
  have one : value? 1.0 = some ((1 : Nat) : ℚ) := (toCount?_eq_some_iff.mp (by decide +kernel)).2
  rw [beq_iff_value valued one]
  exact_mod_cast Iff.rfl

theorem magnitudeText_eq {n : Nat} (whole : IsWhole x n) (pos : 0 < n) :
    magnitudeText x = toString n := by
  rw [magnitudeText, if_pos whole.truncate, whole.text pos]

theorem termText_eq (whole : IsWhole x z) (nonzero : z ≠ 0) (power : Nat) :
    (termText x power).toList = termChars (power, z) := by
  have below : x < 0.0 ↔ z < 0 := by
    rw [neg_iff_value whole.valued]
    exact_mod_cast Iff.rfl
  have written : (x.abs != 1.0 || power == 0) = true ↔ z.natAbs ≠ 1 ∨ power = 0 := by
    rw [Bool.or_eq_true, bne, Bool.not_eq_true', ← Bool.not_eq_true,
      beq_one_iff whole.abs.valued, beq_iff_eq]
  simp only [termText, termChars, below, written,
    magnitudeText_eq whole.abs (Int.natAbs_pos.mpr nonzero), String.toList_append]
  split <;> split <;> rfl

end

/-! ### Polynomials with whole coefficients -/

/-- Every coefficient is a whole number below `2 ^ 53`. -/
def WholeCoefficients (p : Poly Float) : Prop := ∀ c ∈ p.coefficients, ∃ z, IsWhole c z

namespace WholeCoefficients

variable {p q : Poly Float}

/-- A missing coefficient is zero, and whole as well. -/
theorem coeff (whole : p.WholeCoefficients) (power : Nat) : ∃ z, IsWhole (p.coeff power) z := by
  rw [Poly.coeff, List.getD_eq_getElem?_getD]
  cases found : p.coefficients[power]? with
  | none => exact ⟨0, by decide, rfl⟩
  | some c => exact whole c (List.mem_of_getElem? found)

/-- The text is that of the terms. -/
theorem text (whole : p.WholeCoefficients) : p.text.toList = polyChars p.terms := by
  have each : ∀ t ∈ p.kept, (termText t.1 t.2).toList = termChars (t.2, wholeOf t.1) := by
    rintro ⟨c, power⟩ member
    obtain ⟨found, nonzero⟩ := mem_kept.mp member
    obtain ⟨z, isWhole⟩ := whole c (List.mem_of_getElem? found)
    rw [wholeOf_eq isWhole.valued, termText_eq isWhole ((bne_zero_iff isWhole.valued).mp nonzero)]
  have opening : "f(x)=".toList = ['f', '(', 'x', ')', '='] := rfl
  rw [text_eq, polyChars, terms, String.toList_append, opening]
  refine congrArg (['f', '(', 'x', ')', '='] ++ ·) ?_
  cases kept : p.kept with
  | nil => rfl
  | cons t rest =>
      rw [kept] at each
      show (String.join ((t :: rest).map fun t => termText t.1 t.2)).toList =
        (((t :: rest).map fun t => (t.2, wholeOf t.1)).map termChars).flatten
      rw [String.toList_join, List.flatMap_map, List.map_map, ← List.flatMap_def]
      exact List.flatMap_congr each

/-- The terms are the coefficients that are not zero. -/
theorem mem_terms (whole : p.WholeCoefficients) {power : Nat} {z : ℤ} :
    (power, z) ∈ p.terms ↔ z ≠ 0 ∧ value? (p.coeff power) = some (z : ℚ) := by
  rw [terms, List.mem_map, Poly.coeff, List.getD_eq_getElem?_getD]
  constructor
  · rintro ⟨⟨c, i⟩, member, same⟩
    cases same
    obtain ⟨found, nonzero⟩ := mem_kept.mp member
    obtain ⟨z, isWhole⟩ := whole c (List.mem_of_getElem? found)
    rw [wholeOf_eq isWhole.valued, found]
    exact ⟨(bne_zero_iff isWhole.valued).mp nonzero, isWhole.valued⟩
  · rintro ⟨nonzero, valued⟩
    cases found : p.coefficients[power]? with
    | none =>
        rw [found] at valued
        have zero : (0 : ℚ) = z := Option.some.inj valued
        exact absurd (by exact_mod_cast zero.symm) nonzero
    | some c =>
        rw [found, Option.getD_some] at valued
        refine ⟨(c, power), mem_kept.mpr ⟨found, (bne_zero_iff valued).mpr nonzero⟩, ?_⟩
        rw [wholeOf_eq valued]

/-- The terms are what is read from the text. -/
theorem read (whole : p.WholeCoefficients) : read? p.text = some p.terms :=
  read?_polyChars whole.text

theorem text_eq_iff (hp : p.WholeCoefficients) (hq : q.WholeCoefficients) :
    p.text = q.text ↔ p.terms = q.terms := by
  constructor
  · intro same
    have reads := hp.read
    rw [same, hq.read] at reads
    exact (Option.some.inj reads).symm
  · intro same
    rw [← String.toList_inj, hp.text, hq.text, same]

theorem coeff_beq_iff (hp : p.WholeCoefficients) (hq : q.WholeCoefficients) (power : Nat) :
    (p.coeff power == q.coeff power) = true ↔ value? (p.coeff power) = value? (q.coeff power) := by
  obtain ⟨z, hz⟩ := hp.coeff power
  obtain ⟨z', hz'⟩ := hq.coeff power
  rw [beq_iff_value hz.valued hz'.valued, hz.valued, hz'.valued, Option.some_inj]

/-- Polynomials have the same terms if and only if they have the same coefficients. -/
theorem terms_eq_iff (hp : p.WholeCoefficients) (hq : q.WholeCoefficients) :
    p.terms = q.terms ↔ ∀ power, value? (p.coeff power) = value? (q.coeff power) := by
  constructor
  · intro same power
    obtain ⟨z, hz⟩ := hp.coeff power
    obtain ⟨z', hz'⟩ := hq.coeff power
    by_cases zero : z = 0
    · by_cases zero' : z' = 0
      · rw [hz.valued, hz'.valued, zero, zero']
      · have there : (power, z') ∈ p.terms := by
          rw [same]
          exact hq.mem_terms.mpr ⟨zero', hz'.valued⟩
        exact (hp.mem_terms.mp there).2.trans hz'.valued.symm
    · have there : (power, z) ∈ q.terms := by
        rw [← same]
        exact hp.mem_terms.mpr ⟨zero, hz.valued⟩
      exact hz.valued.trans (hq.mem_terms.mp there).2.symm
  · intro same
    have : Std.Irrefl fun t u : Nat × ℤ => u.1 < t.1 := ⟨fun t => Nat.lt_irrefl t.1⟩
    have : Std.Antisymm fun t u : Nat × ℤ => u.1 < t.1 :=
      ⟨fun t u above below => absurd above (Nat.lt_asymm below)⟩
    apply p.terms_descending.eq_of_mem_iff q.terms_descending
    rintro ⟨power, z⟩
    rw [hp.mem_terms, hq.mem_terms, same power]

end WholeCoefficients

/-- The text of a polynomial with whole coefficients determines it. Two such texts are the same
if and only if the coefficients of each power are equal, where a missing coefficient is zero
and both zeros are equal. The powers and the coefficients other than zero are read back from
the text, from the highest power down. -/
theorem text_determines {f g : Poly Float} (hf : f.WholeCoefficients) (hg : g.WholeCoefficients) :
    (f.text = g.text ↔ ∀ power, (f.coeff power == g.coeff power) = true) ∧
      ∃ terms, read? f.text = some terms ∧ (terms.Pairwise fun t u => u.1 < t.1) ∧
        ∀ power z, (power, z) ∈ terms ↔ z ≠ 0 ∧ value? (f.coeff power) = some (z : ℚ) := by
  refine ⟨?_, f.terms, hf.read, f.terms_descending, fun power z => hf.mem_terms⟩
  rw [hf.text_eq_iff hg, hf.terms_eq_iff hg]
  exact forall_congr' fun power => (hf.coeff_beq_iff hg power).symm

/-- A zero at the end does not show, whatever its sign. -/
theorem text_determines_zeros :
    (⟨[-1.0, 12.0, -0.0]⟩ : Poly Float).WholeCoefficients ∧
      (⟨[-1.0, 12.0]⟩ : Poly Float).WholeCoefficients ∧
      (⟨[-1.0, 12.0, -0.0]⟩ : Poly Float).text = (⟨[-1.0, 12.0]⟩ : Poly Float).text ∧
      ∃ terms, read? (⟨[-1.0, 12.0, -0.0]⟩ : Poly Float).text = some terms ∧ (1, 12) ∈ terms := by
  have one : IsWhole (-1.0) (-1) := by
    refine ⟨by decide, ?_⟩
    show some (((-(2 ^ 52 : ℕ) : ℤ) : ℚ) * 2 ^ (-52 : ℤ)) = _
    norm_num
  have twelve : IsWhole 12.0 12 := .of_toCount? (by decide +kernel)
  have zero : IsWhole (-0.0) 0 := .of_toCount? (by decide +kernel)
  have whole : (⟨[-1.0, 12.0, -0.0]⟩ : Poly Float).WholeCoefficients := by
    simp only [WholeCoefficients, List.forall_mem_cons]
    exact ⟨⟨_, one⟩, ⟨_, twelve⟩, ⟨_, zero⟩, nofun⟩
  have whole' : (⟨[-1.0, 12.0]⟩ : Poly Float).WholeCoefficients := by
    simp only [WholeCoefficients, List.forall_mem_cons]
    exact ⟨⟨_, one⟩, ⟨_, twelve⟩, nofun⟩
  obtain ⟨same, terms, reads, -, members⟩ := text_determines whole whole'
  refine ⟨whole, whole', same.mpr fun power => ?_, terms, reads, ?_⟩
  · match power with
    | 0 | 1 | 2 => decide +kernel
    | power + 3 =>
        show ((0 : Float) == 0) = true
        decide +kernel
  · exact (members 1 12).mpr ⟨by decide, twelve.valued⟩

end PolyCalc.Poly
