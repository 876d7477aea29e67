import PolyCalc.Proofs.Bindings
import PolyCalc.Proofs.Declarations
import PolyCalc.Proofs.Incremental

/-!
What a run leaves alone.

The frame of a run, however it ends (`program_frame`): what the run does to the
environment it starts in, in terms of the tokens of its text and of the
declarations it comes to make.
-/

namespace PolyCalc

/-- What a run does to its environment. -/
structure Frame (env : Env) (tokens : List Located) (o : Outcome) : Prop where
  /-- A name with a value still has one. -/
  bound : ∀ name v, env.get name = .bound v → ∃ w, o.env.get name = .bound w
  /-- No name is left without a value. -/
  valued : ∀ name, o.env.get name ≠ .unbound
  /-- A new name is there if and only if it has been declared by a declaration of the
  text. -/
  declared : ∀ name, env.get name = .absent →
    (o.env.get name ≠ .absent ↔
      [.var, .identifier name, .assign] <:+: tokens.map Located.token ∧
        ∃ v, .declared name v ∈ o.journal)
  /-- A name is declared at the very end of its statement: a run that fails after it
  without another statement fails at a token in whose place a terminator would have ended
  the statement. -/
  complete : DeclaresLast (o.result = .ok () ∨
      ∃ used t rest, tokens = used ++ t :: rest ∧
        Derives .program (used.map Located.token ++ [.terminator]) ∧
        o.result = .error t.unterminated)
    (effects o.journal)
  /-- A run that does not fail makes all the declarations of its text. -/
  finished : o.result = .ok () → ∀ name,
    [.var, .identifier name, .assign] <:+: tokens.map Located.token →
      ∃ v, .declared name v ∈ o.journal
  /-- However a run ends, it makes all the declarations before a terminator that it gets
  past. -/
  preceding : ∀ done e rest, tokens = done ++ e :: rest → e.token = .terminator →
    (evaluate ⟨env, []⟩ .statement (done ++ [e])).result = .ok () → ∀ name,
    [.var, .identifier name, .assign] <:+: done.map Located.token →
      ∃ v, .declared name v ∈ o.journal
  /-- A name that never stands in front of a `:=` has the binding that it had. -/
  untouched : ∀ name, ¬ [.identifier name, .assign] <:+: tokens.map Located.token →
    o.env.get name = env.get name
  /-- Nothing that is bound or captured inside of a lambda body is left. -/
  outer : o.env = env.defineAll (outerBindings 0 o.journal)

/-- Sights of tokens are no declarations. -/
theorem declared_mem_effects {name : String} {v : Value Float} {events : List Event} :
    .declared name v ∈ effects events ↔ .declared name v ∈ events := by
  simp [effects, Event.isSight]

/-- However a run ends, from an environment without captured names: bound names stay
bound and no name is left without a value. The new names are those with a
declaration that came to its end, as all declarations do that the run gets past. Names
that do not stand in front of a `:=` are untouched, and so is everything by what happens
inside of lambda bodies. -/
theorem program_frame (env : Env) (source : String) (valued : ∀ name, env.get name ≠ .unbound) :
    Frame env (scan source) (program env source) := by
  have lawful := program_lawful env source
  have bindings := env.get_defineAll (outerBindings 0 (program env source).journal)
  rw [← program_env] at bindings
  constructor
  case outer => exact program_env env source
  case bound =>
    intro name v before
    rcases bindings name with same | bound
    · exact ⟨v, same.trans before⟩
    · exact bound
  case valued =>
    intro name unbound
    rcases bindings name with same | ⟨v, bound⟩
    · exact valued name (same.symm.trans unbound)
    · rw [bound] at unbound
      cases unbound
  case untouched =>
    intro name unwritten
    rw [program_replay, lawful.get_replay unwritten]
  case declared =>
    intro name absent
    have missing : env.contains name = false := by
      rw [Env.contains, absent]
    rw [← Env.contains_eq_true, program_replay, lawful.contains_replay missing]
    simp only [declared_mem_effects]
    constructor
    · rintro ⟨v, member⟩
      exact ⟨lawful.declared_read (declared_mem_effects.mpr member), v, member⟩
    · exact And.right
  case complete =>
    rw [program_effects, program_result]
    refine (evaluate_declarations ⟨env, []⟩ .statement (scan source)).mono ?_
    rintro (ended | ⟨used, t, rest, read, accepts, failed⟩)
    · exact .inl ended
    · exact .inr ⟨used, t, rest, read, accepts (scan_before read), failed⟩
  case finished =>
    intro ok name written
    obtain ⟨words, q, scanned, -⟩ := scan_words source
    rw [scanned] at written
    rw [program_result, scanned] at ok
    obtain ⟨v, made⟩ := evaluate_declares (.inl rfl) ok (.ahead written)
    rw [← scanned, ← program_effects] at made
    exact ⟨v, declared_mem_effects.mp made⟩
  case preceding =>
    intro done e rest read ended ok name written
    have owed : Owed name .statement ((done ++ [e]).map Located.token) := by
      rw [List.map_append]
      exact .ahead (written.trans (List.prefix_append ..).isInfix)
    obtain ⟨v, made⟩ := evaluate_declares (.inr ended) ok owed
    have later := (evaluate_closed ended ok rest).subset made
    rw [← read, ← program_effects] at later
    exact ⟨v, declared_mem_effects.mp later⟩

/-- The environment every program starts with has no captured names. -/
theorem Env.preloaded_valued (name : String) : Env.preloaded.get name ≠ .unbound := by
  intro unbound
  have same : Env.preloaded = Env.empty.defineAll Env.initialBindings := rfl
  rw [same] at unbound
  rcases Env.empty.get_defineAll Env.initialBindings name with absent | ⟨v, bound⟩
  · rw [unbound, Env.get_empty] at absent
    cases absent
  · rw [unbound] at bound
    cases bound

/-- A lambda reassigns a name in its body, and the last declaration fails in its value. -/
theorem program_frame_failure :
    (∀ name, Env.preloaded.get name ≠ .unbound) ∧
      Frame .preloaded (scan "var a := 1; var f := [x] -> (a := 5) * x; var b := a + c;")
        (program .preloaded "var a := 1; var f := [x] -> (a := 5) * x; var b := a + c;") ∧
      (program .preloaded "var a := 1; var f := [x] -> (a := 5) * x; var b := a + c;").env.contains
        "b" = false :=
  ⟨Env.preloaded_valued, program_frame .preloaded _ Env.preloaded_valued, by decide +kernel⟩

end PolyCalc
