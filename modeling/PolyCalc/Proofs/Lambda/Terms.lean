import PolyCalc.Proofs.Collect
import PolyCalc.Proofs.Tree

/-!
Lambdas as sums of terms.

Here the body of a lambda is a list of signed terms. A term has a coefficient, a power
of the variable, or both, and a coefficient is a chain of literals. A lambda is printed
as its tokens, with or without a `*` before the variable, and it denotes a polynomial:
the coefficient of each power is the sum of its terms (`Formula.poly`). The terms may
come in any order, and a power may come more than once.

While a lambda is evaluated, its coefficients are at any time the polynomial of the terms
so far (`Lambda.Sums`).
-/

namespace PolyCalc

/-! ### Terms -/

/-- A literal and the operator of a product before it. -/
structure Factor where
  op : Operator
  isProduct : op.rank = 2
  literal : Literal

/-- A chain of literals. -/
structure Coefficient where
  first : Literal
  more : List Factor

/-- A literal that stands for a power within the limit. -/
structure Exponent where
  literal : Literal
  power : Nat
  whole : Number.toCount? literal.value = some power
  within : power ≤ maxDegree

/-- A term without its sign. The variable may have an exponent, and a `*` before it if it
has a coefficient. -/
inductive Monomial where
  | constant (c : Coefficient)
  | power (e : Option Exponent)
  | scaled (c : Coefficient) (star : Bool) (e : Option Exponent)

structure Term where
  negative : Bool
  monomial : Monomial

/-- A lambda with one captured name, which is its variable. -/
structure Formula where
  unknown : Name
  first : Term
  more : List Term

/-! ### Printing -/

def Factor.tokens (f : Factor) : List Token := [f.op.token, .number f.literal.text]

def Coefficient.tokens (c : Coefficient) : List Token :=
  .number c.first.text :: c.more.flatMap Factor.tokens

def exponentTokens : Option Exponent → List Token
  | none => []
  | some e => [.caret, .leftParen, .number e.literal.text, .rightParen]

def Monomial.tokens (x : Name) : Monomial → List Token
  | constant c => c.tokens
  | power e => .identifier x.text :: exponentTokens e
  | scaled c star e =>
      c.tokens ++ (if star then [.star] else []) ++ .identifier x.text :: exponentTokens e

/-- The term with its sign. -/
def Term.tokens (x : Name) (t : Term) : List Token :=
  (if t.negative then .minus else .plus) :: t.monomial.tokens x

/-- The first term has a sign only if it is negative. -/
def Formula.tokens (f : Formula) : List Token :=
  [.captureBegin, .identifier f.unknown.text, .captureEnd, .arrow] ++
    (if f.first.negative then [.minus] else []) ++ f.first.monomial.tokens f.unknown ++
      f.more.flatMap (Term.tokens f.unknown)

/-! ### Meaning -/

/-- The chain is folded from left to right. -/
def Coefficient.value (c : Coefficient) : Float :=
  c.more.foldl (fun x f => f.op.onScalars x f.literal.value) c.first.value

/-- A variable without an exponent has the power 1. -/
def exponentPower : Option Exponent → Nat
  | none => 1
  | some e => e.power

namespace Monomial

def degree : Monomial → Nat
  | constant _ => 0
  | power e | scaled _ _ e => exponentPower e

/-- A missing coefficient is 1. -/
def coefficient : Monomial → Float
  | constant c | scaled c _ _ => c.value
  | power _ => 1.0

end Monomial

namespace Term

def degree (t : Term) : Nat := t.monomial.degree

def sign (t : Term) : Float := if t.negative then -1.0 else 1.0

/-- The coefficient with its sign. -/
def coefficient (t : Term) : Float := t.sign * t.monomial.coefficient

/-- The term as it is collected. -/
def entry (t : Term) : Nat × Float := (t.degree, t.coefficient)

end Term

namespace Formula

def terms (f : Formula) : List Term := f.first :: f.more

/-- The largest degree of a term. -/
def degree (f : Formula) : Nat := (f.terms.map Term.degree).foldr max 0

/-- The polynomial that the lambda denotes. -/
def poly (f : Formula) : Poly Float := ⟨collect (f.degree + 1) (f.terms.map Term.entry)⟩

theorem size_poly (f : Formula) : f.poly.size = 1 + f.degree := by
  rw [Nat.add_comm]
  exact length_collect ..

/-- The coefficient of a power is the sum of its terms from left to right. -/
theorem coeff_poly (f : Formula) {power : Nat} (inside : power ≤ f.degree) :
    f.poly.coefficients[power]? =
      some (((f.terms.filter fun t => t.degree = power).map Term.coefficient).foldl
        (· + ·) 0.0) := by
  have below : power < f.degree + 1 := Nat.lt_succ_of_le inside
  have sum : sumAt (f.terms.map Term.entry) power =
      ((f.terms.filter fun t => t.degree = power).map Term.coefficient).foldl (· + ·) 0.0 := by
    rw [sumAt, List.filter_map, List.map_map]
    rfl
  simp only [poly, collect, List.getElem?_map, List.getElem?_range below, Option.map_some, sum]

end Formula

/-! ### Texts -/

theorem Coefficient.legible (c : Coefficient) : ∀ t ∈ c.tokens, t.Legible := by
  rw [tokens, List.forall_mem_cons]
  refine ⟨c.first.isLiteral, fun t member => ?_⟩
  obtain ⟨f, -, inside⟩ := List.mem_flatMap.mp member
  simp only [Factor.tokens, List.mem_cons, List.not_mem_nil, or_false] at inside
  rcases inside with rfl | rfl
  · exact f.op.token_legible
  · exact f.literal.isLiteral

theorem exponentTokens_legible (e : Option Exponent) : ∀ t ∈ exponentTokens e, t.Legible := by
  cases e with
  | none => simp [exponentTokens]
  | some e => simp [exponentTokens, Token.Legible, e.literal.isLiteral]

theorem Monomial.legible (x : Name) (m : Monomial) : ∀ t ∈ m.tokens x, t.Legible := by
  cases m with
  | constant c => exact c.legible
  | power e =>
      rw [tokens, List.forall_mem_cons]
      exact ⟨x.isName, exponentTokens_legible e⟩
  | scaled c star e =>
      simp only [tokens, List.forall_mem_append, List.forall_mem_cons]
      refine ⟨⟨c.legible, ?_⟩, x.isName, exponentTokens_legible e⟩
      cases star <;> simp [Token.Legible]

theorem Term.legible (x : Name) (t : Term) : ∀ u ∈ t.tokens x, u.Legible := by
  rw [tokens, List.forall_mem_cons]
  refine ⟨?_, t.monomial.legible x⟩
  split <;> trivial

/-- Every token of a lambda is one that is scanned as itself. -/
theorem Formula.legible (f : Formula) : ∀ t ∈ f.tokens, t.Legible := by
  simp only [tokens, List.forall_mem_append, List.forall_mem_cons]
  refine ⟨⟨⟨⟨trivial, f.unknown.isName, trivial, trivial, by simp⟩, ?_⟩,
    f.first.monomial.legible f.unknown⟩, fun t member => ?_⟩
  · split <;> simp [Token.Legible]
  · obtain ⟨term, -, inside⟩ := List.mem_flatMap.mp member
    exact term.legible f.unknown t inside

/-! ### The terms so far -/

section

variable {α : Type}

/-- One more than the largest power. Without terms it is zero. -/
def reach (terms : List (Nat × α)) : Nat := terms.foldr (fun t n => max (t.1 + 1) n) 0

theorem lt_reach {terms : List (Nat × α)} {t : Nat × α} (member : t ∈ terms) :
    t.1 < reach terms := by
  induction terms with
  | nil => cases member
  | cons u terms ih =>
      rw [reach, List.foldr_cons]
      rcases List.mem_cons.mp member with rfl | later
      · omega
      · have less := ih later
        rw [reach] at less
        omega

theorem reach_concat (terms : List (Nat × α)) (t : Nat × α) :
    reach (terms ++ [t]) = max (reach terms) (t.1 + 1) := by
  induction terms with
  | nil => exact Nat.max_comm ..
  | cons u terms ih =>
      simp only [reach, List.cons_append, List.foldr_cons] at ih ⊢
      omega

variable [Scalar α]

/-- Powers that no term has yet have zeros. -/
theorem collect_reach (terms : List (Nat × α)) (more : Nat) :
    collect (reach terms + more) terms =
      collect (reach terms) terms ++ List.replicate more 0 := by
  have zeros : ((List.range more).map (reach terms + ·)).map (sumAt terms) =
      List.replicate more 0 := by
    rw [List.eq_replicate_iff]
    refine ⟨by simp, fun c member => ?_⟩
    obtain ⟨power, past, rfl⟩ := List.mem_map.mp member
    obtain ⟨i, -, rfl⟩ := List.mem_map.mp past
    apply sumAt_eq_zero
    intro t inside same
    have less := lt_reach inside
    omega
  rw [collect, List.range_add, List.map_append, zeros]
  rfl

end

theorem Formula.reach_terms (f : Formula) : reach (f.terms.map Term.entry) = f.degree + 1 := by
  obtain ⟨x, first, more⟩ := f
  simp only [degree, terms]
  induction more generalizing first with
  | nil => simp [reach, Term.entry]
  | cons t more ih =>
      have later := ih t
      simp only [reach, List.map_cons, List.foldr_cons, Term.entry] at later ⊢
      omega

/-- The lambda has collected the terms, and has no other variable than the name. -/
structure Lambda.Sums (x : String) (terms : List (Nat × Float)) (l : Lambda) : Prop where
  unknown : ∀ name, l.unknown = some name → name = x
  coefficients : l.coefficients = (collect (reach terms) terms).toArray

namespace Lambda.Sums

variable {x : String} {terms : List (Nat × Float)} {l : Lambda}

theorem start (x : String) (captures : List String) (line : Nat) :
    (Lambda.start captures line).Sums x [] :=
  ⟨nofun, rfl⟩

theorem use (h : l.Sums x terms) : ∃ l', l.use x = .ok l' ∧ l'.Sums x terms := by
  unfold Lambda.use
  split
  · refine ⟨_, rfl, fun name same => ?_, h.coefficients⟩
    exact (Option.some.inj same).symm
  · rename_i expected used
    rw [if_pos (h.unknown expected used)]
    exact ⟨l, rfl, h⟩

/-- There is room for any power, and one more term is collected. -/
theorem add (h : l.Sums x terms) (c : Float) (power : Nat) :
    ∃ l', l.add c power = .ok l' ∧ l'.Sums x (terms ++ [(power, c)]) := by
  let size := reach (terms ++ [(power, c)])
  have size_eq : size = reach terms + (power + 1 - reach terms) := by
    have last : size = max (reach terms) (power + 1) := reach_concat ..
    omega
  have fits : power < size := lt_reach (t := (power, c)) (by simp)
  have room : l.coefficients ++ Array.replicate (power + 1 - l.coefficients.size) 0.0 =
      (collect size terms).toArray := by
    rw [size_eq, collect_reach, h.coefficients, List.size_toArray, length_collect,
      ← List.toArray_replicate, List.append_toArray]
    rfl
  have added := addAt_collect fits terms c
  refine ⟨{ l with coefficients := (collect size (terms ++ [(power, c)])).toArray }, ?_,
    h.unknown, rfl⟩
  rw [Lambda.add, room, added]
  rfl

/-- A lambda with all its terms has the polynomial that it denotes. -/
theorem poly {f : Formula} (h : l.Sums x (f.terms.map Term.entry)) : l.poly = f.poly := by
  rw [Lambda.poly, h.coefficients, f.reach_terms, Formula.poly]
  cases all : collect (f.degree + 1) (f.terms.map Term.entry) with
  | nil =>
      have size := length_collect (f.degree + 1) (f.terms.map Term.entry)
      rw [all] at size
      cases size
  | cons c cs => rfl

end Lambda.Sums

end PolyCalc
