import PolyCalc.Proofs.Nesting
import PolyCalc.Proofs.Relabel
import PolyCalc.Proofs.Scan

/-!
Programs one after the other.

A text whose last token is a terminator can be evaluated on its own before the
text below it is known. No step looks past the terminator, and the scopes of
lambda bodies are all left at it, so the evaluation of both texts together is
that of the first one and then, in the environment it leaves, that of the second
one (`program_append_newline`). The tokens of the second text stand further down
there, which only shows in the line of a failure. What the first text does is done
however the second one ends (`evaluate_closed`).
-/

namespace PolyCalc

namespace Report

/-- The report of an evaluation and, once that has come to its end, of another
one in the environment it leaves. -/
def andThen (x : Report) (next : Env → Report) : Report :=
  match x.result with
  | .ok () => (next x.env).after x.printed
  | .error _ => x

/-- The report with its failure the given number of lines further down. -/
def below (lines : Nat) (x : Report) : Report :=
  { x with result := x.result.mapError fun f => { f with line := f.line + lines } }

theorem after_andThen (values : List (Value Float)) (x : Report) (next : Env → Report) :
    (x.after values).andThen next = (x.andThen next).after values := by
  obtain ⟨printed, env, result⟩ := x
  cases result with
  | ok => simp [andThen, after]
  | error failure => rfl

/-- A text without statements adds nothing. -/
theorem andThen_empty (x : Report) : (x.andThen fun env => ⟨[], env, .ok ()⟩) = x := by
  obtain ⟨printed, env, result⟩ := x
  cases result with
  | ok => simp [andThen, after]
  | error failure => rfl

/-- Sights of tokens do not show in a report. -/
theorem ofStep_congr {scopes : Scopes} {x y : Traced Mode} {rest : Scopes → Mode → Report}
    (same : effects x.events = effects y.events ∧ x.result = y.result) :
    ofStep scopes x rest = ofStep scopes y rest := by
  simp only [ofStep, same]

end Report

/-! ### The evaluation of closed texts -/

/-- What the tokens that follow are evaluated to, from a place between statements. -/
def Outlook (ts : List Located) (env : Env) : Report := (evaluate ⟨env, []⟩ .statement ts).report

/-- The evaluation goes on to the tokens after it as a program to the next one. -/
def Separable (evaluation : List Located → Report) : Prop :=
  ∃ x : Report, ∀ rest, rest ≠ [] → evaluation rest = x.andThen (Outlook rest)

/-- A step is separable from what comes after if its continuation is. -/
theorem Separable.ofStep {scopes : Scopes} {stepped : Traced Mode}
    {go : List Located → Scopes → Mode → Report}
    (later : ∀ m, stepped.result = .ok m →
      Separable fun rest => go rest (scopes.replay (effects stepped.events)) m) :
    Separable fun rest => .ofStep scopes stepped (go rest) := by
  unfold Report.ofStep
  dsimp only
  cases result : stepped.result with
  | error failure => exact ⟨⟨_, _, .error failure⟩, fun _ _ => rfl⟩
  | ok m =>
      obtain ⟨x, separated⟩ := later m result
      refine ⟨x.after (printedValues (effects stepped.events)), fun rest more => ?_⟩
      rw [Report.after_andThen, ← separated rest more]

/-- Nothing up to a terminator depends on what comes after it. -/
theorem evaluate_separable {words : List Located} {scopes : Scopes} {m : Mode} {last : Located}
    (nested : Nested scopes m.depth) (closed : words.getLast? = some last)
    (ended : last.token = .terminator) :
    Separable fun rest => (evaluate scopes m (words ++ rest)).report := by
  induction words generalizing scopes m with
  | nil => cases closed
  | cons t words ih =>
      cases words with
      | nil =>
          obtain rfl : t = last := Option.some.inj closed
          have unnamed : ∀ name, t.token ≠ .identifier name := by simp [ended]
          have first (rest : List Located) : (evaluate scopes m ([t] ++ rest)).report =
              .ofStep scopes (step scopes.current t t m) fun scopes m =>
                (evaluate scopes m rest).report :=
            (evaluate_cons_report scopes m t rest).trans
              (Report.ofStep_congr (Relabel.step_next unnamed m))
          simp only [first]
          refine .ofStep fun m' ok => ?_
          obtain ⟨rfl, outside⟩ := step_at_terminator nested ended ok
          let done := effects (step scopes.current t t m).events
          refine ⟨⟨[], (scopes.replay done).globals, .ok ()⟩, fun rest _ => ?_⟩
          rw [Report.andThen, Outlook, ← outside]
          rfl
      | cons next words =>
          have first (rest : List Located) :
              (evaluate scopes m (t :: next :: words ++ rest)).report =
              .ofStep scopes (step scopes.current t next m) fun scopes m =>
                (evaluate scopes m (next :: words ++ rest)).report :=
            evaluate_cons_report ..
          simp only [first]
          exact .ofStep fun m' ok => ih (step_nested nested ok) closed

/-- The effects of a closed text that does not fail come first, whatever comes after it. -/
theorem evaluate_closed {scopes : Scopes} {m : Mode} {done : List Located} {e : Located}
    (ended : e.token = .terminator) (ok : (evaluate scopes m (done ++ [e])).result = .ok ())
    (rest : List Located) :
    effects (evaluate scopes m (done ++ [e])).journal <+:
      effects (evaluate scopes m (done ++ e :: rest)).journal := by
  induction done generalizing scopes m with
  | nil =>
      have unnamed : ∀ name, e.token ≠ .identifier name := by simp [ended]
      obtain ⟨m', stepped, -⟩ := evaluate_cons_ok ok
      obtain ⟨same, result⟩ := @Relabel.step_next scopes.current e e (rest.headD e) unnamed m
      rw [List.nil_append, List.nil_append, evaluate_cons_effects stepped,
        evaluate_cons_effects (result.trans stepped), same]
      exact (List.prefix_append_right_inj _).mpr List.nil_prefix
  | cons t done ih =>
      have next : (done ++ e :: rest).headD t = (done ++ [e]).headD t := by
        cases done <;> rfl
      simp only [List.cons_append] at ok ⊢
      obtain ⟨m', stepped, later⟩ := evaluate_cons_ok ok
      rw [evaluate_cons_effects stepped, evaluate_cons_effects (next ▸ stepped), next]
      exact (List.prefix_append_right_inj _).mpr (ih later)

/-! ### Moved texts -/

/-- Moves tokens below the given characters and a newline. -/
def Relabel.under (cs : List Char) : Relabel :=
  .move (· + (Position.start.afterAll cs).offset + 1) (· + (cs.count '\n' + 1)) id

/-- It does not matter whether a place is moved before or after a character. -/
theorem Relabel.position_under (cs : List Char) (p : Position) (c : Char) :
    (under cs).position (p.after c) = ((under cs).position p).after c := by
  unfold Position.after position under move
  split <;> simp <;> omega

/-- The tokens of two texts, one below the other: those of the first without its
end, and those of the second, moved. -/
theorem scan_append_newline (s₁ s₂ : String) :
    scan (s₁ ++ "\n" ++ s₂) =
      (scan s₁).dropLast ++ (scan s₂).map (Relabel.under s₁.toList).located := by
  have moved : (Position.start.afterAll s₁.toList).after '\n' =
      (Relabel.under s₁.toList).position .start := by
    have line := Position.line_afterAll .start s₁.toList
    have width : '\n'.utf8Size = 1 := rfl
    simp [Position.after, Relabel.position, Relabel.under, Relabel.move, Position.start] at line ⊢
    omega
  have placed : (Relabel.under s₁.toList).located =
      fun t => ⟨t.token, (Relabel.under s₁.toList).position t.start⟩ :=
    funext fun t => congrArg (Located.mk · _) (Relabel.token_move ..)
  have text : (s₁ ++ "\n" ++ s₂).toList = s₁.toList ++ '\n' :: s₂.toList := by simp
  rw [scan_eq, text, tokensFrom_newline, moved, tokensFrom_map (Relabel.position_under _), placed,
    scan_eq, scan_eq]

/-! ### Programs -/

theorem Relabel.report_under (cs : List Char) (x : Report) :
    (Relabel.under cs).report x = x.below (cs.count '\n' + 1) := by
  have failures : (Relabel.under cs).failure =
      fun f => { f with line := f.line + (cs.count '\n' + 1) } :=
    funext fun f => congrArg (Failure.mk · _) (fault_move ..)
  rw [report, failures, under, env_move]
  rfl

/-- A moved text is evaluated as the text itself, with its failure further down. -/
theorem outlook_under (cs : List Char) (source : String) (env : Env) :
    Outlook ((scan source).map (Relabel.under cs).located) env =
      (program env source).report.below (cs.count '\n' + 1) := by
  have same : (Relabel.under cs).scopes ⟨env, []⟩ = ⟨env, []⟩ :=
    congrArg (Scopes.mk · []) (Relabel.env_move ..)
  have moved := (Relabel.under cs).evaluate_relabel ⟨env, []⟩ .statement (scan source)
  rw [same, Relabel.report_under, ← program_report] at moved
  exact moved

/-- A text that has no token or ends with a terminator, and a text below it: their
evaluation is that of the first text and, if it comes to its end, that of the
second text in the environment it leaves. A failure in the second text is
reported as many lines further down as the first text has. -/
theorem program_append_newline (env : Env) (s₁ s₂ : String)
    (closed : wordsOf s₁ = [] ∨ (wordsOf s₁).getLast? = some .terminator) :
    (program env (s₁ ++ "\n" ++ s₂)).report =
      (program env s₁).report.andThen fun env =>
        (program env s₂).report.below (s₁.toList.count '\n' + 1) := by
  obtain ⟨words, q, scanned, same, -⟩ := scan_words s₁
  have separable :
      Separable fun rest => (evaluate ⟨env, []⟩ .statement (words ++ rest)).report := by
    rw [same, List.map_eq_nil_iff, List.getLast?_map, Option.map_eq_some_iff] at closed
    rcases closed with rfl | ⟨last, closed, ended⟩
    · exact ⟨⟨[], env, .ok ()⟩, fun _ _ => rfl⟩
    · exact evaluate_separable rfl closed ended
  obtain ⟨x, separated⟩ := separable
  have first : (program env s₁).report = x := by
    rw [program_report, scanned]
    exact (separated _ (by simp)).trans x.andThen_empty
  have second : Outlook ((scan s₂).map (Relabel.under s₁.toList).located) =
      fun env => (program env s₂).report.below (s₁.toList.count '\n' + 1) :=
    funext (outlook_under s₁.toList s₂)
  have more : (scan s₂).map (Relabel.under s₁.toList).located ≠ [] := by
    simp [scan_ne_nil]
  rw [program_report, scan_append_newline, scanned, List.dropLast_concat, first, ← second]
  exact separated _ more

/-- The second text fails: the report is on its second line, the third of both. -/
theorem program_append_newline_failure :
    (wordsOf "var x := 2;" = [] ∨ (wordsOf "var x := 2;").getLast? = some .terminator) ∧
      (program .preloaded ("var x := 2;" ++ "\n" ++ "print(x);\nx * y;")).report =
        (program .preloaded "var x := 2;").report.andThen fun env =>
          (program env "print(x);\nx * y;").report.below 1 := by
  have closed : wordsOf "var x := 2;" = [] ∨
      (wordsOf "var x := 2;").getLast? = some .terminator := by
    decide +kernel
  exact ⟨closed, program_append_newline .preloaded "var x := 2;" "print(x);\nx * y;" closed⟩

end PolyCalc
