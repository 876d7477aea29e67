import PolyCalc.Proofs.Relabel

/-!
Programs in another layout.

The evaluator is given tokens and never sees what stands between them. It does
not look at their places either: two texts whose tokens become the same when
they are relabelled have reports that become the same (`Relabel.program_congr`).

Two choices of what to relabel give the main statements. If all places are
forgotten, texts with the same tokens are evaluated alike, however they are laid
out (`program_layout`). If a single line is moved that has no token on it, the
tokens stay and so does the failure, so the line of a failure is the line of a
token (`program_failure_line`).
-/

namespace PolyCalc

/-! ### Failures without places -/

/-- The fault without the column of a stray character. No other fault has one. -/
def Fault.withoutColumn : Fault → Fault
  | .unexpectedCharacter found _ => .unexpectedCharacter found 0
  | fault => fault

/-- What a failure says, without its line and its column. -/
def Failure.cause (f : Failure) : Fault := f.fault.withoutColumn

namespace Relabel

/-! ### Texts that become the same -/

/-- Texts that become the same when they are relabelled, each in its own way, have
reports that become the same. -/
theorem program_congr {r r' : Relabel} {env env' : Env} {s s' : String}
    (envs : r.env env = r'.env env')
    (tokens : (scan s).map r.located = (scan s').map r'.located) :
    r.report (program env s).report = r'.report (program env' s').report := by
  have relabelled (r : Relabel) (env : Env) (s : String) : r.report (program env s).report =
      (evaluate ⟨r.env env, []⟩ .statement ((scan s).map r.located)).report := by
    rw [program_report]
    exact (r.evaluate_relabel ⟨env, []⟩ .statement (scan s)).symm
  rw [relabelled, relabelled, envs, tokens]

/-- So do their effects. -/
theorem effects_congr {r r' : Relabel} {env env' : Env} {s s' : String}
    (envs : r.env env = r'.env env')
    (tokens : (scan s).map r.located = (scan s').map r'.located) :
    (effects (program env s).journal).map r.event =
      (effects (program env' s').journal).map r'.event := by
  have relabelled (r : Relabel) (env : Env) (s : String) :
      (effects (program env s).journal).map r.event =
        effects (evaluate ⟨r.env env, []⟩ .statement ((scan s).map r.located)).journal := by
    rw [program_effects]
    exact (r.evaluate_effects ⟨env, []⟩ .statement (scan s)).symm
  rw [relabelled, relabelled, envs, tokens]

/-! ### Forgetting places -/

/-- Keeps the names and forgets all places. -/
def forget : Relabel := move (fun _ => 0) (fun _ => 0) fun _ => 0

/-- A column that is forgotten is the only thing a fault loses. -/
theorem fault_move_zero (offset line : Nat → Nat) (f : Fault) :
    (move offset line fun _ => 0).fault f = f.withoutColumn := by
  cases f with
  | unexpectedToken found expected =>
      exact congrArg (Fault.unexpectedToken · expected) (token_move ..)
  | _ => rfl

/-- Without its place a token is its kind and its text. -/
theorem located_forget (t : Located) : forget.located t = ⟨t.token, ⟨0, 0, 0⟩⟩ :=
  congrArg (Located.mk · _) (token_move ..)

end Relabel

/-- Texts with the same tokens, whatever stands between them and wherever they
stand, leave the same environment, print the same values, and come to the same
end, but for the place of a failure. -/
theorem program_layout (env : Env) {s₁ s₂ : String}
    (same : (scan s₁).map Located.token = (scan s₂).map Located.token) :
    (program env s₁).env = (program env s₂).env ∧
      (program env s₁).printed = (program env s₂).printed ∧
      (program env s₁).result.mapError Failure.cause =
        (program env s₂).result.mapError Failure.cause := by
  have tokens : (scan s₁).map Relabel.forget.located = (scan s₂).map Relabel.forget.located := by
    have placed := congrArg (List.map fun token => (⟨token, ⟨0, 0, 0⟩⟩ : Located)) same
    rw [List.map_map, List.map_map] at placed
    rw [funext Relabel.located_forget]
    exact placed
  have reports := Relabel.program_congr (Eq.refl (Relabel.forget.env env)) tokens
  -- What is left of a failure is its cause.
  have causes (result : Except Failure Unit) : result.mapError Failure.cause =
      (result.mapError Relabel.forget.failure).mapError Failure.fault := by
    cases result with
    | ok => rfl
    | error f => exact congrArg Except.error (Relabel.fault_move_zero _ _ f.fault).symm
  refine ⟨?_, congrArg Report.printed reports, ?_⟩
  · have envs := congrArg Report.env reports
    exact (Relabel.env_move ..).symm.trans (envs.trans (Relabel.env_move ..))
  · have results := congrArg (fun x => x.result.mapError Failure.fault) reports
    rw [causes, causes]
    exact results

/-- A lambda and a failure on one line, and the same with comments on three. -/
theorem program_layout_comments :
    (scan "var f := [x] -> x^(2) - 1; print(f(3)); g + 1;").map Located.token =
        (scan "var f:=[x]->x^(2)-1;# a parabola\nprint(f(3));\n\tg+1;").map Located.token ∧
      (program .preloaded "var f := [x] -> x^(2) - 1; print(f(3)); g + 1;").printed =
        (program .preloaded "var f:=[x]->x^(2)-1;# a parabola\nprint(f(3));\n\tg+1;").printed ∧
      (program .preloaded "var f := [x] -> x^(2) - 1; print(f(3)); g + 1;").result.mapError
          Failure.cause =
        (program .preloaded
          "var f:=[x]->x^(2)-1;# a parabola\nprint(f(3));\n\tg+1;").result.mapError
          Failure.cause := by
  have same : (scan "var f := [x] -> x^(2) - 1; print(f(3)); g + 1;").map Located.token =
      (scan "var f:=[x]->x^(2)-1;# a parabola\nprint(f(3));\n\tg+1;").map Located.token := by
    decide +kernel
  exact ⟨same, (program_layout .preloaded same).2⟩

/-! ### Lines of failures -/

/-- A failure is reported on the line of a token. -/
theorem program_failure_line {env : Env} {source : String} {failure : Failure}
    (failed : (program env source).result = .error failure) :
    ∃ t ∈ scan source, t.line = failure.line := by
  -- Lines without a token are moved. The tokens stay, so the failure does.
  let lines : Nat → Nat := fun n => if ∃ t ∈ scan source, t.line = n then n else n + 1
  have tokens : (scan source).map (Relabel.move id lines id).located =
      (scan source).map Relabel.refl.located := by
    refine List.map_congr_left fun t member => ?_
    have line : lines t.start.line = t.start.line := if_pos ⟨t, member, rfl⟩
    have place : (Relabel.move id lines id).position t.start = t.start :=
      congrArg (Position.mk _ · _) line
    rw [Relabel.located, place]
    rfl
  have envs : (Relabel.move id lines id).env env = Relabel.refl.env env := by
    rw [Relabel.refl, Relabel.env_move, Relabel.env_move]
  have results := congrArg Report.result (Relabel.program_congr envs tokens)
  simp only [Relabel.report, Outcome.report, failed] at results
  have fixed : lines failure.line = failure.line :=
    congrArg Failure.line (Except.error.inj results)
  by_cases placed : ∃ t ∈ scan source, t.line = failure.line
  · exact placed
  · have moved : lines failure.line = failure.line + 1 := if_neg placed
    omega

end PolyCalc
