import PolyCalc.Proofs.Bindings
import PolyCalc.Proofs.Held
import PolyCalc.Proofs.WellFormed

/-!
Well-formed values in whole runs.

Being well-formed is inherited, with this condition on lambdas under way: one has no
more coefficients than the degree limit allows (`inherited_wellFormed`). So every value
that programs bind or print is well-formed, whatever they are and however they end
(`session_wellFormed`).
-/

namespace PolyCalc

/-! ### Lambdas -/

/-- The sums so far stay within the degree limit. -/
def Lambda.WellFormed (l : Lambda) : Prop := l.coefficients.size ≤ maxDegree + 1

/-- Coefficients are added up to the power, which is within the limit. -/
theorem Lambda.wellFormed_add {l l' : Lambda} {c : Float} {power : Nat} (h : l.WellFormed)
    (within : power ≤ maxDegree) (ok : l.add c power = .ok l') : l'.WellFormed := by
  obtain ⟨cs, added, ok⟩ := bind_ok ok
  cases ok
  have size := Poly.addAt_size added
  rw [Array.size_append, Array.size_replicate] at size
  unfold WellFormed at h
  show cs.size ≤ maxDegree + 1
  omega

theorem Lambda.wellFormed_use {l l' : Lambda} {name : String} (h : l.WellFormed)
    (ok : l.use name = .ok l') : l'.WellFormed := by
  unfold use at ok
  split at ok
  · cases ok
    exact h
  · split at ok
    · cases ok
      exact h
    · cases ok

/-- The invariant. A lambda that is built is a well-formed polynomial, even if it has no sums. -/
theorem inherited_wellFormed : Inherited Value.WellFormed Lambda.WellFormed where
  number _ := trivial
  start _ _ := Nat.zero_le _
  use := Lambda.wellFormed_use
  add := Lambda.wellFormed_add
  lambda h := Poly.wellFormed_ofList h
  apply := Operator.apply_wellFormed
  invoke args done :=
    have answer := Callable.invoke_wellFormed args done
    ⟨answer.value, answer.printed⟩

/-! ### Runs -/

/-- What an outcome leaves is well-formed: its environment and what it prints. -/
structure Outcome.WellFormed (o : Outcome) : Prop where
  env : o.env.All Value.WellFormed
  printed : ∀ v ∈ o.printed, v.WellFormed

/-- Whatever is bound or printed is well-formed, also in the bodies of lambdas and before a
failure. -/
theorem evaluate_journal_wellFormed {env : Env} (h : env.All Value.WellFormed)
    (tokens : List Located) :
    ∀ e ∈ effects (evaluate ⟨env, []⟩ .statement tokens).journal, ∀ v ∈ e.values, v.WellFormed :=
  (evaluate_all inherited_wellFormed (.outermost h) Control.all_statement).1

theorem program_wellFormed {env : Env} (h : env.All Value.WellFormed) (source : String) :
    (program env source).WellFormed := by
  have events := evaluate_journal_wellFormed h (scan source)
  constructor
  · show (evaluate ⟨env, []⟩ .statement (scan source)).env.All _
    rw [evaluate_env, ← Scopes.replay_effects]
    exact (Scopes.All.replay (.outermost h) events).globals
  · intro v member
    rw [program_printed, Outcome.printed, ← printedValues_effects] at member
    obtain ⟨e, found, shown⟩ := List.mem_filterMap.mp member
    cases e <;> simp at shown
    subst shown
    exact events _ found _ List.mem_cons_self

/-! ### Sessions -/

/-- Operations, constructors without dimensions, and numbers. -/
theorem Env.initialBindings_wellFormed : ∀ b ∈ initialBindings, b.2.WellFormed := by
  intro b member
  rcases List.mem_append.mp member with member | member
  · rcases List.mem_append.mp member with member | member
    · obtain ⟨operation, -, rfl⟩ := List.mem_map.mp member
      exact operation.mem_operations
    · obtain ⟨family, known, rfl⟩ := List.mem_map.mp member
      exact ⟨family, known, rfl⟩
  · obtain ⟨constant, -, rfl⟩ := List.mem_map.mp member
    trivial

theorem Env.preloaded_wellFormed : preloaded.All Value.WellFormed := by
  have defined : ∀ (bindings : List (String × Value Float)) (env : Env), env.All Value.WellFormed →
      (∀ b ∈ bindings, b.2.WellFormed) →
      (bindings.foldl (fun env b => env.define b.1 b.2) env).All Value.WellFormed := by
    intro bindings
    induction bindings with
    | nil => exact fun env h _ => h
    | cons b bindings ih =>
        intro env h sound
        obtain ⟨first, rest⟩ := List.forall_mem_cons.mp sound
        exact ih _ (h.define first) rest
  exact defined initialBindings .empty (fun name v bound => by simp at bound)
    initialBindings_wellFormed

/-- The texts evaluated one after the other, each in the environment that the one
before it leaves: the last environment and everything printed. -/
def session (env : Env) : List String → Env × List (Value Float)
  | [] => (env, [])
  | source :: sources =>
      let outcome := program env source
      let later := session outcome.env sources
      (later.1, outcome.printed ++ later.2)

/-- The induction is on the texts, from any well-formed environment. -/
theorem session_keeps_wellFormed {env : Env} (h : env.All Value.WellFormed)
    (sources : List String) :
    (session env sources).1.All Value.WellFormed ∧
      ∀ v ∈ (session env sources).2, v.WellFormed := by
  induction sources generalizing env with
  | nil => exact ⟨h, fun v member => nomatch member⟩
  | cons source sources ih =>
      have first := program_wellFormed h source
      obtain ⟨final, printed⟩ := ih first.env
      exact ⟨final, List.forall_mem_append.mpr ⟨first.printed, printed⟩⟩

/-- Whatever texts are evaluated after each other from the start, and however
each of them ends, every value bound at the end and every printed value is
well-formed. -/
theorem session_wellFormed (sources : List String) :
    (∀ name v, (session .preloaded sources).1.get name = .bound v → v.WellFormed) ∧
      ∀ v ∈ (session .preloaded sources).2, v.WellFormed :=
  session_keeps_wellFormed Env.preloaded_wellFormed sources

/-- The second text reassigns and prints a polynomial before it fails. -/
theorem session_wellFormed_failure :
    ∃ v, (session .preloaded
        ["var f := [x] -> x^(2) - 1;", "f := derive(f); print(f); g;"]).1.get "f" = .bound v ∧
      v.WellFormed := by
  have known :
      ((session .preloaded ["var f := [x] -> x^(2) - 1;", "f := derive(f); print(f); g;"]).1.lookup
        "f").isOk = true := by
    decide +kernel
  have sound := (session_wellFormed
    ["var f := [x] -> x^(2) - 1;", "f := derive(f); print(f); g;"]).1 "f"
  rw [Env.lookup] at known
  split at known
  · rename_i v bound
    exact ⟨v, bound, sound v bound⟩
  · cases known
  · cases known

end PolyCalc
