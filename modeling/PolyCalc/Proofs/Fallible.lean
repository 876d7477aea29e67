import PolyCalc.Squaring

/-!
Computations that may fail.

Inversion of successful computations, step by step, and what repeated ones keep:
a property that every step of a fold or every product keeps holds at the end
(`foldlM_keeps`, `timesPower_keeps`). For computations that fail, `FaultsIn` says
which faults they may have.
-/

namespace PolyCalc

variable {α β ε : Type}

/-- A sequence that succeeds is a success and then another one. -/
theorem bind_ok {x : Except ε α} {f : α → Except ε β} {b : β} (ok : x >>= f = .ok b) :
    ∃ a, x = .ok a ∧ f a = .ok b :=
  match x, ok with
  | .ok a, done => ⟨a, rfl, done⟩

theorem map_ok {x : Except ε α} {f : α → β} {b : β} (ok : f <$> x = .ok b) :
    ∃ a, x = .ok a ∧ f a = b :=
  match x, ok with
  | .ok a, done => ⟨a, rfl, Except.ok.inj done⟩

/-- There is one result for each item. -/
theorem mapM_ok_length {f : α → Except ε β} {xs : List α} {ys : List β}
    (ok : xs.mapM f = .ok ys) : ys.length = xs.length := by
  induction xs generalizing ys with
  | nil => cases ok; rfl
  | cons x xs ih =>
      rw [List.mapM_cons] at ok
      obtain ⟨y, -, ok⟩ := bind_ok ok
      obtain ⟨rest, mapped, ok⟩ := bind_ok ok
      cases ok
      rw [List.length_cons, ih mapped, List.length_cons]

/-- Where every item has a result, the results are those of a plain map. -/
theorem mapM_eq_map {f : α → Except ε β} {g : α → β} {xs : List α}
    (each : ∀ a ∈ xs, f a = .ok (g a)) : xs.mapM f = .ok (xs.map g) := by
  induction xs with
  | nil => rfl
  | cons x xs ih =>
      obtain ⟨first, rest⟩ := List.forall_mem_cons.mp each
      rw [List.mapM_cons, first, ih rest]
      rfl

/-- Where every step succeeds, the end is that of a plain fold. -/
theorem foldlM_eq_foldl {f : β → α → Except ε β} {g : β → α → β} {xs : List α}
    (each : ∀ b, ∀ a ∈ xs, f b a = .ok (g b a)) (b : β) :
    xs.foldlM f b = .ok (xs.foldl g b) := by
  induction xs generalizing b with
  | nil => rfl
  | cons x xs ih =>
      rw [List.foldlM_cons, each b x List.mem_cons_self]
      exact ih (fun b a member => each b a (List.mem_cons_of_mem x member)) (g b x)

/-- What every step keeps holds at the end. -/
theorem foldlM_keeps {P : β → Prop} {f : β → α → Except ε β}
    (keeps : ∀ b a b', P b → f b a = .ok b' → P b') {xs : List α} {b b' : β} (start : P b)
    (ok : xs.foldlM f b = .ok b') : P b' := by
  induction xs generalizing b with
  | nil => cases ok; exact start
  | cons x xs ih =>
      rw [List.foldlM_cons] at ok
      obtain ⟨c, first, ok⟩ := bind_ok ok
      exact ih (keeps b x c start first) ok

/-- One binary digit of the exponent. -/
theorem timesPower_digit (mul : β → β → Except Fault β) (result base : β) {n : Nat}
    (positive : n ≠ 0) :
    timesPower mul result base n =
      (if n % 2 = 1 then mul result base else .ok result) >>= fun result =>
        if n / 2 = 0 then .ok result
        else mul base base >>= fun base => timesPower mul result base (n / 2) := by
  rw [timesPower, if_neg positive]
  by_cases odd : n % 2 = 1
  · simp only [odd, if_true]
  · simp only [odd, if_false]

/-- A power has what products have, if the factors and the unit have it. -/
theorem timesPower_keeps {P : β → Prop} {mul : β → β → Except Fault β}
    (keeps : ∀ a b c, P a → P b → mul a b = .ok c → P c) {result base r : β} {n : Nat}
    (resultHolds : P result) (baseHolds : P base)
    (ok : timesPower mul result base n = .ok r) : P r := by
  induction n using Nat.strongRecOn generalizing result base with
  | ind n ih =>
      by_cases zero : n = 0
      · rw [timesPower, if_pos zero] at ok
        cases ok
        exact resultHolds
      rw [timesPower_digit mul result base zero] at ok
      obtain ⟨product, multiplied, ok⟩ := bind_ok ok
      have productHolds : P product := by
        split at multiplied
        · exact keeps _ _ _ resultHolds baseHolds multiplied
        · cases multiplied
          exact resultHolds
      split at ok
      · cases ok
        exact productHolds
      · obtain ⟨square, squared, ok⟩ := bind_ok ok
        exact ih (n / 2) (by omega) productHolds (keeps _ _ _ baseHolds baseHolds squared) ok

/-! ### Faults -/

/-- Whatever fault the computation has is one of the given ones. -/
def FaultsIn (Q : Fault → Prop) (x : Except Fault α) : Prop := ∀ fault, x = .error fault → Q fault

namespace FaultsIn

variable {Q : Fault → Prop}

theorem ok (a : α) : FaultsIn Q (.ok a) := fun _ failed => nomatch failed

theorem error {fault : Fault} (allowed : Q fault) : FaultsIn Q (.error fault : Except Fault α) := by
  rintro _ ⟨⟩
  exact allowed

/-- A computation without faults has a result. -/
theorem total {x : Except Fault α} (never : FaultsIn (fun _ => False) x) : ∃ a, x = .ok a := by
  cases x with
  | error fault => exact (never fault rfl).elim
  | ok a => exact ⟨a, rfl⟩

/-- In a sequence, what follows may rely on the result of the first computation. -/
theorem bind {x : Except Fault α} {f : α → Except Fault β} (first : FaultsIn Q x)
    (rest : ∀ a, x = .ok a → FaultsIn Q (f a)) : FaultsIn Q (x >>= f) := by
  cases x with
  | error fault =>
      rintro _ ⟨⟩
      exact first fault rfl
  | ok a => exact rest a rfl

theorem map {x : Except Fault α} (f : α → β) (h : FaultsIn Q x) : FaultsIn Q (f <$> x) :=
  bind h fun a _ => ok (f a)

/-- The faults of a fold are those of its steps, as long as the invariant holds. -/
theorem foldlM {P : β → Prop} {f : β → α → Except Fault β} {xs : List α}
    (each : ∀ b, ∀ a ∈ xs, P b → FaultsIn Q (f b a))
    (keeps : ∀ b a b', P b → f b a = .ok b' → P b') {b : β} (start : P b) :
    FaultsIn Q (xs.foldlM f b) := by
  induction xs generalizing b with
  | nil => exact ok b
  | cons x xs ih =>
      rw [List.foldlM_cons]
      refine bind (each b x List.mem_cons_self start) fun c stepped => ?_
      exact ih (fun b a member => each b a (List.mem_cons_of_mem x member))
        (keeps b x c start stepped)

theorem mapM {f : α → Except Fault β} {xs : List α} (each : ∀ a ∈ xs, FaultsIn Q (f a)) :
    FaultsIn Q (xs.mapM f) := by
  induction xs with
  | nil => exact ok _
  | cons x xs ih =>
      obtain ⟨first, rest⟩ := List.forall_mem_cons.mp each
      rw [List.mapM_cons]
      exact bind first fun _ _ => bind (ih rest) fun _ _ => ok _

/-- The faults of a power are those of the products of its factors. -/
theorem power {P : β → Prop} {mul : β → β → Except Fault β}
    (each : ∀ a b, P a → P b → FaultsIn Q (mul a b))
    (keeps : ∀ a b c, P a → P b → mul a b = .ok c → P c) {result base : β}
    (resultHolds : P result) (baseHolds : P base) (n : Nat) :
    FaultsIn Q (timesPower mul result base n) := by
  induction n using Nat.strongRecOn generalizing result base with
  | ind n ih =>
      by_cases zero : n = 0
      · rw [timesPower, if_pos zero]
        exact ok _
      rw [timesPower_digit mul result base zero]
      refine bind ?_ fun product multiplied => ?_
      · split
        · exact each _ _ resultHolds baseHolds
        · exact ok _
      have productHolds : P product := by
        split at multiplied
        · exact keeps _ _ _ resultHolds baseHolds multiplied
        · cases multiplied
          exact resultHolds
      split
      · exact ok _
      · refine bind (each _ _ baseHolds baseHolds) fun square squared => ?_
        exact ih (n / 2) (by omega) productHolds (keeps _ _ _ baseHolds baseHolds squared)

end FaultsIn

end PolyCalc
