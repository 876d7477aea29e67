import PolyCalc.Proofs.Bodies
import PolyCalc.Proofs.Calculus
import PolyCalc.Proofs.Convolution
import PolyCalc.Proofs.Lambda.Run
import PolyCalc.Proofs.Powers

/-!
Degrees and the degree limit.

The degree of a polynomial is the highest power with a coefficient other than zero
(`degree_eq`). Products, antiderivatives and powers are checked by another number, the
highest power that has a coefficient at all. The two are the same if and only if the last
coefficient is not zero, or is the only one (`degree_eq_top_iff`). Terms that cancel leave
zeros behind, so a program can have a polynomial of degree 1 that counts as one of degree
1024 (`limit_of_cancelled`).
-/

namespace PolyCalc.Poly

variable {α : Type} [Scalar α] [BEq α] {p q : Poly α}

/-! ### Degrees -/

/-- A polynomial is made of the coefficients up to its degree and zeros. -/
theorem coefficients_split (p : Poly α) :
    ∃ kept zeros, p.coefficients = kept ++ zeros ∧ (∀ c ∈ zeros, (c == 0) = true) ∧
      (∀ c, kept.getLast? = some c → (c == 0) = false) ∧ p.degree = kept.length - 1 := by
  refine ⟨(p.coefficients.reverse.dropWhile (· == 0)).reverse,
    (p.coefficients.reverse.takeWhile (· == 0)).reverse, ?_, ?_, ?_, ?_⟩
  · rw [← List.reverse_append, List.takeWhile_append_dropWhile, List.reverse_reverse]
  · intro c member
    have zero := List.mem_takeWhile_imp (List.mem_reverse.mp member)
    exact zero
  · intro c last
    have stops := List.head?_dropWhile_not (· == 0) p.coefficients.reverse
    rw [List.getLast?_reverse] at last
    rw [last] at stops
    exact stops
  · rw [List.length_reverse, degree]

theorem degree_le_top (p : Poly α) : p.degree ≤ p.top := by
  obtain ⟨kept, zeros, split, -, -, degree⟩ := p.coefficients_split
  rw [degree, top, size, split, List.length_append]
  omega

/-- Past the degree there are only zeros. -/
theorem zero_of_degree_lt {i : Nat} {c : α} (above : p.degree < i)
    (found : p.coefficients[i]? = some c) : (c == 0) = true := by
  obtain ⟨kept, zeros, split, allZero, -, degree⟩ := p.coefficients_split
  rw [split, List.getElem?_append_right (by omega)] at found
  exact allZero c (List.mem_of_getElem? found)

/-- At a degree other than 0 there is a coefficient other than zero. -/
theorem exists_at_degree (positive : 0 < p.degree) :
    ∃ c, p.coefficients[p.degree]? = some c ∧ (c == 0) = false := by
  obtain ⟨kept, zeros, split, -, last, degree⟩ := p.coefficients_split
  have inside : kept.length - 1 < kept.length := by omega
  refine ⟨kept[kept.length - 1], ?_, last _ ?_⟩
  · rw [split, degree, List.getElem?_append_left inside, List.getElem?_eq_getElem inside]
  · rw [List.getLast?_eq_getElem?, List.getElem?_eq_getElem inside]

theorem degree_eq {d : Nat} {c : α} (found : p.coefficients[d]? = some c)
    (nonzero : (c == 0) = false)
    (zeros : ∀ i c, d < i → p.coefficients[i]? = some c → (c == 0) = true) : p.degree = d := by
  rcases Nat.lt_trichotomy p.degree d with less | same | more
  · cases (zero_of_degree_lt less found).symm.trans nonzero
  · exact same
  · obtain ⟨c', found', nonzero'⟩ := exists_at_degree (p := p) (by omega)
    cases (zeros _ c' more found').symm.trans nonzero'

/-- The last coefficient is not zero, or there is no other. -/
def Trimmed (p : Poly α) : Prop := p.size = 1 ∨ (p.coeff p.top == 0) = false

theorem degree_eq_top_iff (hp : p.Complete) : p.degree = p.top ↔ p.Trimmed := by
  have size := hp.size_eq
  have inside : p.top < p.coefficients.length := by
    show p.top < p.size
    omega
  have last : p.coefficients[p.top]? = some (p.coeff p.top) := by
    rw [coeff, List.getD_eq_getElem?_getD, List.getElem?_eq_getElem inside, Option.getD_some]
  constructor
  · intro same
    by_cases constant : p.top = 0
    · exact .inl (by omega)
    · obtain ⟨c, found, nonzero⟩ := exists_at_degree (p := p) (by omega)
      rw [same, last] at found
      cases found
      exact .inr nonzero
  · intro trimmed
    have le := p.degree_le_top
    rcases trimmed with constant | nonzero
    · omega
    · by_contra differ
      have zero := zero_of_degree_lt (Nat.lt_of_le_of_ne le differ) last
      cases zero.symm.trans nonzero

/-! ### The limit -/

/-- The computation succeeds up to the limit. Past it, it reports a degree past the limit. -/
structure LimitedBy (result : Except Fault (Poly α)) (degree : Nat) : Prop where
  within : degree ≤ maxDegree → ∃ r, result = .ok r
  past : maxDegree < degree →
    ∃ found, result = .error (.degreeLimit found) ∧ maxDegree < found ∧ found ≤ degree

omit [BEq α] in
theorem mul_limited (hp : p.Complete) (hq : q.Complete) : LimitedBy (p.mul q) (p.top + q.top) where
  within limit := ⟨_, mul_ok hp hq limit⟩
  past limit := ⟨_, (mul_error_iff hp hq _).mpr ⟨limit, rfl⟩, limit, le_rfl⟩

omit [BEq α] in
theorem integrate_error (past : maxDegree < p.size) :
    p.integrate = .error (.degreeLimit p.size) := by
  rw [integrate_eq, checkDegree_of_lt past]
  rfl

omit [BEq α] in
theorem integrate_limited (hp : p.Complete) : LimitedBy p.integrate (p.top + 1) := by
  rw [← hp.size_eq]
  refine ⟨fun limit => ?_, fun limit => ⟨_, integrate_error limit, limit, le_rfl⟩⟩
  rw [integrate_eq, checkDegree_of_le limit]
  exact ⟨_, rfl⟩

omit [BEq α] in
theorem pow_limited (hp : p.Complete) (n : Nat) : LimitedBy (p.pow n) (p.top * n) where
  within limit := by
    obtain ⟨q, done, -⟩ := pow_ok hp limit
    exact ⟨q, done⟩
  past limit := by
    have large : maxDegree < Nat.pow 2 64 - 1 := by decide
    exact ⟨_, pow_error hp limit, Nat.lt_min.mpr ⟨limit, large⟩, Nat.min_le_left ..⟩

end PolyCalc.Poly

namespace PolyCalc

/-- Whatever an evaluation holds between two tokens has an inherited property. -/
theorem Parsing.Reached.all {P : Value Float → Prop} {Q : Lambda → Prop}
    (inherited : Inherited P Q) {env : Env} (henv : env.All P) {source : String} {p : Parsing}
    (reached : Reached env source p) : p.scopes.All P ∧ (Control.mode p.mode).All P Q := by
  induction reached with
  | start => exact ⟨.outermost henv, Control.all_statement⟩
  | @step p mode before _ ok ih =>
      obtain ⟨scopes, held⟩ := ih
      rw [before.stepped_eq] at ok
      obtain ⟨events, ⟨m, done, next⟩ | ⟨_, _, _, failed, _⟩⟩ :=
        (step_follows p.mode).all inherited scopes.current held
      · cases ok.symm.trans done
        have replayed := scopes.replay events
        rw [Scopes.replay_effects, ← before.stepped_eq] at replayed
        exact ⟨replayed, next⟩
      · cases ok.symm.trans failed

/-- Of a polynomial with a coefficient, the degree is the highest power with a coefficient other
than zero. It is not above the highest power that has a coefficient, and the same if and only
if the last coefficient is not zero or the only one. A product, an antiderivative or a power
fails if and only if the highest power with a coefficient would be past the limit. So the limit
is never missed, and without zeros at the end it is the limit of the degree.

Every function of a program has a coefficient: those of names and of pending work at every
place of the text, and whatever operators and calls make of them. -/
theorem degreeLimit_exact {f g : Poly Float} (hf : f.Complete) (hg : g.Complete) :
    ((∀ i c, f.degree < i → f.coefficients[i]? = some c → (c == 0) = true) ∧
      (0 < f.degree → ∃ c, f.coefficients[f.degree]? = some c ∧ (c == 0) = false)) ∧
    (f.degree ≤ f.top ∧ (f.degree = f.top ↔ f.Trimmed)) ∧
    (Poly.LimitedBy (f.mul g) (f.top + g.top) ∧ Poly.LimitedBy f.integrate (f.top + 1) ∧
      ∀ n, Poly.LimitedBy (f.pow n) (f.top * n)) ∧
    (f.Trimmed → g.Trimmed → Poly.LimitedBy (f.mul g) (f.degree + g.degree)) ∧
    (f.Trimmed → Poly.LimitedBy f.integrate (f.degree + 1) ∧
      ∀ n, Poly.LimitedBy (f.pow n) (f.degree * n)) ∧
    Inherited Value.Complete ∧
    ∀ source p, Parsing.Reached .preloaded source p →
      (∀ name f, p.scopes.current.get name = .bound (.function f) → f.Complete) ∧
      ∀ f, .function f ∈ p.mode.values → f.Complete := by
  refine ⟨⟨fun i c => Poly.zero_of_degree_lt, Poly.exists_at_degree⟩,
    ⟨f.degree_le_top, Poly.degree_eq_top_iff hf⟩,
    ⟨Poly.mul_limited hf hg, Poly.integrate_limited hf, Poly.pow_limited hf⟩, ?_, ?_,
    inherited_complete, ?_⟩
  · intro trimmed trimmed'
    rw [(Poly.degree_eq_top_iff hf).mpr trimmed, (Poly.degree_eq_top_iff hg).mpr trimmed']
    exact Poly.mul_limited hf hg
  · intro trimmed
    rw [(Poly.degree_eq_top_iff hf).mpr trimmed]
    exact ⟨Poly.integrate_limited hf, Poly.pow_limited hf⟩
  · intro source p reached
    have initial : Env.preloaded.All Value.Complete :=
      fun name v bound => (Env.preloaded_wellFormed name v bound).complete
    obtain ⟨scopes, pending⟩ := reached.all inherited_complete initial
    exact ⟨fun name f => scopes.current name (.function f), fun f => pending.values (.function f)⟩

/-- The identity has powers up to the limit and none past it. A call waits with a function
among its arguments. -/
theorem degreeLimit_exact_identity :
    (⟨[0, 1]⟩ : Poly Float).Complete ∧ (⟨[0, 1]⟩ : Poly Float).Trimmed ∧
      (⟨[0, 1]⟩ : Poly Float).degree = 1 ∧ (∃ r, (⟨[0, 1]⟩ : Poly Float).pow 1024 = .ok r) ∧
      (∃ found, (⟨[0, 1]⟩ : Poly Float).pow 1025 = .error (.degreeLimit found)) ∧
      ∃ p, Parsing.Reached .preloaded "print([x] -> x, 2);" p ∧
        ∃ f, .function f ∈ p.mode.values ∧ f.Complete := by
  have complete : (⟨[0, 1]⟩ : Poly Float).Complete := Nat.le_add_left 1 1
  have trimmed : (⟨[0, 1]⟩ : Poly Float).Trimmed := .inr (by decide +kernel)
  have degree : (⟨[0, 1]⟩ : Poly Float).degree = 1 := by decide +kernel
  obtain ⟨-, -, -, -, limited, -, held⟩ := degreeLimit_exact complete complete
  have powers := (limited trimmed).2
  rw [degree] at powers
  obtain ⟨found, failed, -⟩ := (powers 1025).past (by decide)
  refine ⟨complete, trimmed, degree, (powers 1024).within (by decide), ⟨found, failed⟩, ?_⟩
  have waits : ((Parsing.start .preloaded "print([x] -> x, 2);").ahead? 8).any
      (fun later => later.2.mode.values.any fun v => v.type == .function) = true := by
    decide +kernel
  obtain ⟨events, p, after, waiting⟩ := Parsing.exists_after waits
  obtain ⟨v, member, isFunction⟩ := List.any_eq_true.mp waiting
  cases v with
  | function f => exact ⟨p, after.reached, f, member, (held _ p after.reached).2 f member⟩
  | number | matrix | callable => cases isFunction

namespace Formula

/-- The exponent `^(1024)`. -/
def largest : Exponent where
  literal := ⟨"1024", .inl ⟨by decide, List.all_eq_true.mp (by decide)⟩⟩
  power := 1024
  whole := by decide +kernel
  within := by decide

/-- The lambda `[x] -> x^(1024) - x^(1024) + x`, in which the largest power cancels. -/
def cancelling : Formula where
  unknown := ⟨"x", by decide, 'x', [], rfl, by decide, nofun⟩
  first := ⟨false, .power (some largest)⟩
  more := [⟨true, .power (some largest)⟩, ⟨false, .power none⟩]

theorem size_cancelling : cancelling.poly.size = 1025 := by
  rw [size_poly]
  decide

theorem degree_cancelling : cancelling.poly.degree = 1 := by
  have found := @coeff_poly cancelling 1 (by decide)
  refine Poly.degree_eq found (by decide +kernel) fun i c above found => ?_
  have inside : i < cancelling.poly.size := (List.getElem?_eq_some_iff.mp found).1
  rw [size_cancelling] at inside
  have degree : cancelling.degree = 1024 := by decide
  rw [coeff_poly _ (by omega)] at found
  cases found
  by_cases last : i = 1024
  · subst last
    decide +kernel
  · have none : (cancelling.terms.filter fun t => t.degree = i) = [] := by
      rw [List.filter_eq_nil_iff]
      have degrees : ∀ t ∈ cancelling.terms, t.degree = 1024 ∨ t.degree = 1 := by decide
      intro t member same
      have degree := degrees t member
      have same := of_decide_eq_true same
      omega
    rw [none]
    decide +kernel

/-- The product, the antiderivative and the square of a function of degree 1 are past the
limit. -/
theorem limit_of_cancelled :
    (program .preloaded "var h := [x] -> x^(1024) - x^(1024) + x;").report =
        ⟨[], Env.preloaded.define "h" (.function cancelling.poly), .ok ()⟩ ∧
      cancelling.poly.degree = 1 ∧
      cancelling.poly.mul cancelling.poly = .error (.degreeLimit 2048) ∧
      cancelling.poly.integrate = .error (.degreeLimit 1025) ∧
      cancelling.poly.pow 2 = .error (.degreeLimit 2048) := by
  let h : Name := ⟨"h", by decide, 'h', [], rfl, by decide, nofun⟩
  have size := size_cancelling
  have top : cancelling.poly.top = 1024 := by rw [Poly.top, size]
  have complete : cancelling.poly.Complete := by
    show 1 ≤ cancelling.poly.size
    omega
  refine ⟨cancelling.program_declaration h (by decide +kernel) (by decide +kernel),
    degree_cancelling, ?_, ?_, ?_⟩
  · rw [Poly.mul_error_iff complete complete, top]
    decide
  · rw [Poly.integrate_error (by rw [size]; decide), size]
  · rw [Poly.pow_error complete (by rw [top]; decide), top]
    rfl

end Formula

end PolyCalc
