import PolyCalc.Proofs.Descent.Frames

/-!
Recursive descent does what the evaluator does.

For each rule there is a lemma that it is simulated wherever it stands, if the rules it calls
are. Its proof follows the text of the rule: the frame says which step the evaluator is in, the
token in turn decides how the step goes on, and every call of the rule is answered by the
simulation of that call, in the frame that the step leaves for it. The scopes change between
two calls only by events, which are the same on both sides.

With the recursion of the rules themselves this gives the simulation of all rules, and so
(`descend_eq`) the outcome of all programs.
-/

namespace PolyCalc.Descent

open Scanner Scoped Traced

/-! ### Sums and products -/

section

variable {s : Scanner}

theorem body_term {call : Calls .term s} (sim : Simulated call) :
    Simulates (body .term s call) := by
  intro start finish frame scopes
  cases frame with
  | term k =>
      rw [body, run_bind]
      refine (sim _ _ _ (.addend (.firstAddend k)) scopes).trans (run_congr fun scopes v => ?_)
      rw [run_bind]
      exact sim _ _ _ (.sum v.value k) scopes

theorem body_sum {v : Value Float} {call : Calls (.sum v) s} (sim : Simulated call) :
    Simulates (body (.sum v) s call) := by
  intro start finish frame scopes
  cases frame with
  | sum _ k =>
      rw [body, resume]
      split
      · rename_i op found
        have operator : s.located.token.sumOperator? = some op := found
        rw [run_bind, run_advance, run_bind]
        simp only [sumStep, operator]
        rw [proceed_move (ne_end_of_sum found)]
        refine congrArg (Outcome.after _) ?_
        refine (sim _ _ _ (.addend (.addTo op v s.line k)) scopes).trans
          (run_congr fun scopes w => ?_)
        rw [run_bind, resume, addendStep, proceed_bind, run_lift]
        refine attempt_congr fun v => ?_
        rw [run_bind]
        exact sim _ _ _ (.sum v k) scopes
      · rename_i found
        have operator : s.located.token.sumOperator? = none := found
        simp only [sumStep, operator]
        rfl

theorem body_addend {call : Calls .addend s} (sim : Simulated call) :
    Simulates (body .addend s call) := by
  intro start finish frame scopes
  cases frame with
  | addend k =>
      rw [body, run_bind]
      refine (sim _ _ _ (.operand (.firstFactor k)) scopes).trans (run_congr fun scopes v => ?_)
      rw [run_bind]
      exact sim _ _ _ (.product v.value k) scopes

theorem body_product {v : Value Float} {call : Calls (.product v) s} (sim : Simulated call) :
    Simulates (body (.product v) s call) := by
  intro start finish frame scopes
  cases frame with
  | product _ k =>
      rw [body, resume]
      split
      · rename_i op found
        have operator : s.located.token.productOperator? = some op := found
        rw [run_bind, run_advance, run_bind]
        simp only [productStep, operator]
        rw [proceed_move (ne_end_of_product found)]
        refine congrArg (Outcome.after _) ?_
        refine (sim _ _ _ (.operand (.multiplyInto op v s.line k)) scopes).trans
          (run_congr fun scopes w => ?_)
        rw [run_bind, resume, stepOf, step, valueStep, proceed_bind, run_lift]
        refine attempt_congr fun v => ?_
        rw [run_bind]
        exact sim _ _ _ (.product v k) scopes
      · rename_i found
        have operator : s.located.token.productOperator? = none := found
        simp only [productStep, operator]
        cases k <;> rfl

/-! ### Numbers -/

theorem resume_number (read : HasRead s) (after : Float → Mode) (scopes : Scopes) :
    resume s scopes (numberStep after) =
      (literal s).run scopes fun scopes x => resume x.scanner scopes (stepOf (after x.value)) := by
  obtain ⟨s, rfl⟩ := read
  rw [resume, literal]
  split
  · rename_i literal found
    have token : s.read.located.token = .number literal := found
    rw [run_bind, run_lift, Parsing.number_eq (read_number found).1]
    simp only [numberStep, token]
    rw [proceed_bind]
    refine outcome_congr fun x _ => ?_
    rw [run_bind, run_advance]
    exact proceed_move (by simp [found]) (after x)
  · rename_i other
    unfold numberStep
    split
    · rename_i literal found
      exact absurd found (other literal)
    · exact outcome_unexpected ..

theorem body_signedNumber {call : Calls .signedNumber s} (read : HasRead s) :
    Simulates (body .signedNumber s call) := by
  intro start finish frame scopes
  cases frame with
  | number f =>
      rw [body, resume, NumberFrame.start]
      by_cases found : s.token = .minus
      · rw [dif_pos found, located_token, if_pos found, run_bind, run_advance,
          proceed_move (by simp [found]), f.step_negated, resume_number ⟨s, rfl⟩, run_bind]
        rfl
      · rw [dif_neg found, located_token, if_neg found]
        exact resume_number read f.after scopes

/-! ### Operands -/

/-- Where a signed number is an operand. -/
def NumberFrame.operand (k : Pending .operand) : NumberFrame where
  negated := .negated k
  after x := .value (.number x) k
  step_negated := rfl

theorem body_operand {call : Calls .operand s} (sim : Simulated call) :
    Simulates (body .operand s call) := by
  intro start finish frame scopes
  cases frame with
  | operand k =>
      rw [body]
      split
      · rename_i literal found
        have token : s.located.token = .number literal := found
        have begins : resume s scopes (stepOf (.operand k)) =
            resume s scopes (NumberFrame.operand k).start := by
          simp only [resume, stepOf, step, operandStep, NumberFrame.start, numberStep, token]
          rfl
        rw [begins, run_bind]
        exact sim _ _ _ (.number (.operand k)) scopes
      · rename_i found
        have token : s.located.token = .minus := found
        have begins : resume s scopes (stepOf (.operand k)) =
            resume s scopes (NumberFrame.operand k).start := by
          simp only [resume, stepOf, step, operandStep, NumberFrame.start, token]
          rfl
        rw [begins, run_bind]
        exact sim _ _ _ (.number (.operand k)) scopes
      · rename_i name found
        have token : s.located.token = .identifier name := found
        simp only [resume, stepOf, step, operandStep, token]
        rw [proceed_bind, run_bind, run_lift, outcome_see, outcome_see]
        refine congrArg (Outcome.after _) ?_
        by_cases called : s.read.token.opensCall = true
        · have opens : s.read.located.token.opensCall = true := called
          simp only [opens, if_true]
          rw [if_pos called]
          -- The step of the operand has looked at the token after the name, and now reads it.
          refine Eq.trans ?_ (sim _ _ _ (.call k) scopes)
          simp only [resume, callStep, nameStep, token]
          rw [proceed_see (by simp [found]), proceed_see (by simp [found]), outcome_bind,
            outcome_bind]
          refine congrArg (Outcome.after _) (attempt_congr fun v => ?_)
          cases callable : v.asCallable? with
          | none => simp only [calleeMode, callable]
          | some c => simp only [calleeMode, callable]
        · have notOpens : ¬s.read.located.token.opensCall = true := called
          rw [if_neg called, run_bind, run_advance, run_bind, run_environment, run_bind, run_lift,
            proceed_see (by simp [found]), outcome_bind]
          refine congrArg (Outcome.after _) (attempt_congr fun v => ?_)
          rw [if_neg notOpens]
          rfl
      · rename_i found
        have token : s.located.token = .leftParen := found
        simp only [resume, stepOf, step, operandStep, token]
        rw [proceed_move (by simp [found]), run_bind, run_advance, run_bind]
        refine congrArg (Outcome.after _) ?_
        refine (sim _ _ _ (.expression (.expression (.group k))) scopes).trans
          (run_congr fun scopes v => ?_)
        rw [run_bind]
        exact proceed_expect _ (pure (.value v.value k))
      · rename_i notNumber notMinus notName notParen
        simp only [resume, stepOf, step, operandStep]
        split
        · rename_i literal found
          exact absurd found (notNumber literal)
        · rename_i found
          exact absurd found notMinus
        · rename_i name found
          exact absurd found (notName name)
        · rename_i found
          exact absurd found notParen
        · exact outcome_unexpected ..

/-! ### Lists -/

theorem deliver_expression (t next : Located) (v : Value Float) (k : Pending .goal) :
    deliver t next v (.expression k) = goalStep t next v k := rfl

namespace ListFrame

/-- Calls print, and do not change scopes. -/
theorem replay_done {i : Item} (f : ListFrame i) (xs : List (ItemValue i)) (scopes : Scopes) :
    scopes.replay (f.done xs).events = scopes := by
  cases f with
  | captures line k => rfl
  | generics call k =>
      rw [done, finishGenerics]
      cases call.callee.specialize xs <;> rfl
  | arguments name callee line k =>
      rw [done, finishCall]
      cases callee.invoke xs with
      | error fault => rfl
      | ok answer =>
          show (scopes.replay (answer.printed.map .printed ++ [])) = scopes
          rw [List.append_nil, Scopes.replay_printed]

theorem resume_done {i : Item} (f : ListFrame i) (xs : List (ItemValue i)) (scopes : Scopes) :
    (resume s scopes fun env t next => f.done xs >>= step env t next) =
      (f.done xs).outcome scopes fun scopes m => resume s scopes (stepOf m) := by
  rw [resume, proceed_bind]
  refine outcome_congr fun m _ => ?_
  rw [replay_done, resume]

/-- Generic arguments are signed numbers. -/
def number (call : Call) (sofar : List Float) (k : Pending .operand) : NumberFrame where
  negated := .negatedGeneric call sofar k
  after x := .afterGeneric call (sofar ++ [x]) k
  step_negated := rfl

/-- After the opening token comes the closing one, or an item. -/
theorem step_opening {i : Item} (f : ListFrame i) (env : Env) (t next : Located) :
    step env t next f.opening =
      if t.token = closing i then see next >>= fun _ => f.done []
      else step env t next (f.mode []) := by
  cases f with
  | captures line k =>
      show firstCaptureStep t next line k = _
      unfold firstCaptureStep
      split
      · rename_i found
        exact (if_pos found).symm
      · rename_i other
        exact (if_neg other).symm
  | generics call k =>
      show firstGenericStep t next call k = _
      unfold firstGenericStep
      split
      · rename_i found
        exact (if_pos found).symm
      · rename_i other
        exact (if_neg other).symm
  | arguments name callee line k =>
      show firstArgumentStep env t next _ k = _
      unfold firstArgumentStep
      split
      · rename_i found
        exact (if_pos found).symm
      · rename_i other
        exact (if_neg other).symm

theorem step_afterCapture (line : Nat) (names : List String) (k : Pending .expression) :
    stepOf (.afterCapture line names k) = (captures line k).after names := by
  funext env t next
  show afterCaptureStep t next line names k = _
  unfold afterCaptureStep
  split
  · rename_i found
    exact (if_pos found).symm
  · rename_i other
    exact (if_neg other).symm

theorem step_afterGeneric (call : Call) (xs : List Float) (k : Pending .operand) :
    stepOf (.afterGeneric call xs k) = (generics call k).after xs := by
  funext env t next
  show afterGenericStep t next call xs k = _
  unfold afterGenericStep
  split
  · rename_i found
    exact (if_pos found).symm
  · rename_i other
    exact (if_neg other).symm

theorem deliver_argument (name : String) (callee : Callable Float) (line : Nat)
    (args : List (Value Float)) (v : Value Float) (k : Pending .operand) :
    (fun _ t next => deliver t next v (.expression (.argument ⟨name, callee, line, args⟩ k)) :
      Partial) = (arguments name callee line k).after (args ++ [v]) := by
  funext env t next
  rw [deliver_expression]
  simp only [goalStep]
  split
  · rename_i found
    exact (if_pos found).symm
  · rename_i other
    exact (if_neg other).symm

end ListFrame

theorem body_list {i : Item} {call : Calls (.list i) s} (sim : Simulated call) :
    Simulates (body (.list i) s call) := by
  intro start finish frame scopes
  cases frame with
  | list f =>
      rw [body, resume, stepOf, f.step_opening]
      by_cases found : s.token = closing i
      · rw [dif_pos found, located_token, if_pos found, run_bind, run_advance,
          proceed_see (found ▸ closing_ne i), run_pure, f.resume_done]
      · rw [dif_neg found, located_token, if_neg found]
        exact sim _ _ _ (.items f []) scopes

theorem body_items {i : Item} {sofar : List (ItemValue i)} {call : Calls (.items i sofar) s}
    (sim : Simulated call) : Simulates (body (.items i sofar) s call) := by
  intro start finish frame scopes
  cases frame with
  | items f =>
      rw [body, run_bind]
      refine (sim _ _ _ (.item f sofar) scopes).trans (run_congr fun scopes x => ?_)
      rw [resume, ListFrame.after]
      by_cases found : x.scanner.token = .comma
      · rw [dif_pos found, located_token, if_pos found, run_bind, run_advance,
          proceed_move (by simp [found]), run_bind]
        exact congrArg (Outcome.after _) (sim _ _ _ (.items f _) scopes)
      · rw [dif_neg found, located_token, if_neg found, proceed_expect (closing_ne i), run_bind]
        refine run_congr fun scopes p => ?_
        rw [run_pure, f.resume_done]

theorem body_item {i : Item} {call : Calls (.item i) s} (sim : Simulated call) :
    Simulates (body (.item i) s call) := by
  intro start finish frame scopes
  cases frame with
  | item f sofar =>
      cases f with
      | captures line k =>
          rw [body]
          refine (proceed_name fun name => pure (.afterCapture line (sofar ++ [name]) k)).trans
            (run_congr fun scopes name => ?_)
          rw [outcome_pure, ListFrame.step_afterCapture]
      | generics head k =>
          rw [body]
          refine (congrArg (resume s scopes) ?_).trans
            ((sim _ _ _ (.number (ListFrame.number head sofar k)) scopes).trans
              (run_congr fun scopes x => congrArg _ (ListFrame.step_afterGeneric ..)))
          funext env t next
          show genericStep t next head sofar k = _
          unfold genericStep NumberFrame.start numberStep
          split
          · rename_i literal found
            simp only [found]
            rfl
          · rename_i found
            exact (if_pos found).symm
          · rename_i notNumber notMinus
            rw [if_neg notMinus]
            split
            · rename_i literal found
              exact absurd found (notNumber literal)
            · rfl
      | arguments name callee line k =>
          rw [body]
          refine (sim _ _ _ (.expression (.expression (.argument ⟨name, callee, line, sofar⟩ k)))
            scopes).trans (run_congr fun scopes v => ?_)
          exact congrArg (resume v.scanner scopes) (ListFrame.deliver_argument ..)

/-! ### Calls -/

theorem body_generics {callee : Callable Float} {line : Nat}
    {call : Calls (.generics callee line) s} (sim : Simulated call) :
    Simulates (body (.generics callee line) s call) := by
  intro start finish frame scopes
  cases frame with
  | generics name _ _ k =>
      rw [body]
      show proceed s scopes (calleeStep _ _ _ k) = _
      by_cases found : s.token = .genericBegin
      · have token : s.located.token = .genericBegin := found
        simp only [calleeStep, token]
        rw [dif_pos found, proceed_move (by simp [found]), run_bind, run_advance, run_bind]
        refine congrArg (Outcome.after _) ?_
        refine (sim _ _ _ (.list (.generics ⟨name, callee, line, []⟩ k)) scopes).trans
          (run_congr fun scopes xs => ?_)
        rw [ListFrame.resume_done, ListFrame.done, finishGenerics, outcome_bind, run_bind, run_lift]
        exact attempt_congr fun special => rfl
      · rw [dif_neg found, run_pure]
        unfold calleeStep
        split
        · rename_i opened
          exact absurd opened found
        · rfl

theorem body_call {call : Calls .call s} (sim : Simulated call) :
    Simulates (body .call s call) := by
  intro start finish frame scopes
  cases frame with
  | call k =>
      rw [body, run_bind]
      refine (proceed_name _).trans (identifier_congr fun name => ?_)
      rw [run_bind, run_environment, run_bind, run_lift, outcome_bind]
      refine attempt_congr fun v => ?_
      cases callable : v.asCallable? with
      | none =>
          simp only [calleeMode, callable]
          rfl
      | some c =>
          simp only [calleeMode, callable]
          rw [outcome_pure, run_bind]
          refine (sim _ _ _ (.generics name.value c s.line k) scopes).trans
            (run_congr fun scopes special => ?_)
          rw [run_bind]
          refine (proceed_expect _ (pure (.firstArgument _ k))).trans
            (run_congr fun scopes p => ?_)
          rw [outcome_pure, run_bind]
          refine (sim _ _ _ (.list (.arguments name.value special.value s.line k)) scopes).trans
            (run_congr fun scopes args => ?_)
          rw [ListFrame.resume_done, ListFrame.done, finishCall]
          simp only [outcome_bind, run_bind, run_lift, outcome_pure, run_pure]

/-! ### Lambdas -/

theorem body_lambda {call : Calls .lambda s} (sim : Simulated call) :
    Simulates (body .lambda s call) := by
  intro start finish frame scopes
  cases frame with
  | lambda k =>
      rw [body, resume, lambdaStep]
      by_cases ended : s.token = .endOfFile
      · rw [dif_pos ended, located_token, if_pos ended]
        exact outcome_unexpected ..
      · rw [dif_neg ended, located_token, if_neg ended, run_bind, run_advance, proceed_move ended,
          run_bind]
        refine congrArg (Outcome.after _) ?_
        refine (sim _ _ _ (.list (.captures s.line k)) scopes).trans
          (run_congr fun scopes names => ?_)
        rw [ListFrame.resume_done, ListFrame.done, outcome_pure, run_bind]
        refine (proceed_expect _ _).trans (run_congr fun scopes p => ?_)
        rw [outcome_bind, run_bind, run_lift]
        refine outcome_congr fun _ _ => ?_
        rw [outcome_pure, run_bind]
        refine (sim _ _ _ (.polynomial _ k) _).trans (run_congr fun scopes l => ?_)
        rw [resume, builtStep, proceed_bind, run_bind, run_lift]
        rfl

theorem body_polynomial {l : Lambda} {call : Calls (.polynomial l) s} (sim : Simulated call) :
    Simulates (body (.polynomial l) s call) := by
  intro start finish frame scopes
  cases frame with
  | polynomial _ k =>
      rw [body]
      show proceed s scopes (bodyStep _ _ _ l k) = _
      by_cases found : s.token = .minus
      · have token : s.located.token = .minus := found
        simp only [bodyStep, token]
        rw [dif_pos found, proceed_move (by simp [found]), run_bind, run_advance, run_bind]
        refine congrArg (Outcome.after _) ?_
        refine (sim _ _ _ (.component l (-1.0) k) scopes).trans (run_congr fun scopes first => ?_)
        rw [run_bind]
        exact sim _ _ _ (.components first.value k) scopes
      · rw [dif_neg found, run_bind]
        unfold bodyStep
        split
        · rename_i minus
          exact absurd minus found
        · refine (sim _ _ _ (.component l 1.0 k) scopes).trans (run_congr fun scopes first => ?_)
          rw [run_bind]
          exact sim _ _ _ (.components first.value k) scopes

theorem body_components {l : Lambda} {call : Calls (.components l) s} (sim : Simulated call) :
    Simulates (body (.components l) s call) := by
  intro start finish frame scopes
  cases frame with
  | components _ k =>
      rw [body]
      show proceed s scopes (afterComponentStep _ _ l k) = _
      split
      · rename_i op found
        have operator : s.located.token.sumOperator? = some op := found
        simp only [afterComponentStep, operator]
        rw [proceed_move (ne_end_of_sum found), run_bind, run_advance, run_bind]
        refine congrArg (Outcome.after _) ?_
        refine (sim _ _ _ (.component l _ k) scopes).trans (run_congr fun scopes next => ?_)
        rw [run_bind]
        exact sim _ _ _ (.components next.value k) scopes
      · rename_i found
        have operator : s.located.token.sumOperator? = none := found
        simp only [afterComponentStep, operator]
        rfl

theorem body_coefficient {call : Calls .coefficient s} (sim : Simulated call) :
    Simulates (body .coefficient s call) := by
  intro start finish frame scopes
  cases frame with
  | coefficient l sign k =>
      rw [body, run_bind]
      refine (sim _ _ _ (.factor l sign none k) scopes).trans (run_congr fun scopes x => ?_)
      rw [run_bind]
      exact sim _ _ _ (.factors l sign x.value k) scopes

/-- A name is looked at without an effect on the scopes. -/
theorem unknownName?_cases (env : Env) (t next : Located) :
    (∃ name, t.token = .identifier name ∧
        unknownName? env t next = see next >>= fun _ => pure (some name)) ∨
      unknownName? env t next = pure none ∨
      unknownName? env t next = (see next >>= fun _ => pure none) ∨
      ∃ name, unknownName? env t next = see next >>= fun _ => fail (.notCaptured name) t.line := by
  by_cases named : ∃ name, t.token = .identifier name
  · obtain ⟨name, found⟩ := named
    by_cases called : next.token.opensCall = true
    · refine .inr (.inr (.inl ?_))
      simp only [unknownName?, found, called, if_true]
    by_cases unbound : env.isUnbound name = true
    · refine .inl ⟨name, found, ?_⟩
      simp only [unknownName?, found, called, unbound, if_true, Bool.false_eq_true, if_false]
    by_cases misused : (!env.contains name || decide (next.token = .caret)) = true
    · refine .inr (.inr (.inr ⟨name, ?_⟩))
      simp only [unknownName?, found, called, unbound, misused, if_true, Bool.false_eq_true,
        if_false]
    · refine .inr (.inr (.inl ?_))
      simp only [unknownName?, found, called, unbound, misused, Bool.false_eq_true, if_false]
  · refine .inr (.inl ?_)
    unfold unknownName?
    split
    · rename_i name found
      exact absurd ⟨name, found⟩ named
    · rfl

theorem unknown_congr {scopes : Scopes} {env : Env} {t next : Located}
    {f g : Scopes → Option String → Outcome}
    (same : ∀ answer, (∀ name, answer = some name → t.token = .identifier name ∧
        unknownName? env t next = see next >>= fun _ => pure (some name)) →
      f scopes answer = g scopes answer) :
    (unknownName? env t next).outcome scopes f = (unknownName? env t next).outcome scopes g := by
  rcases unknownName?_cases env t next with ⟨name, found, answer⟩ | answer | answer | ⟨name, answer⟩
  · have known := same (some name) fun _ this => Option.some.inj this ▸ ⟨found, answer⟩
    rw [answer]
    exact congrArg (Outcome.after _) known
  · rw [answer]
    exact congrArg (Outcome.after _) (same none nofun)
  · rw [answer]
    exact congrArg (Outcome.after _) (same none nofun)
  · rw [answer]
    rfl

theorem body_component {l : Lambda} {sign : Float} {call : Calls (.component l sign) s}
    (sim : Simulated call) : Simulates (body (.component l sign) s call) := by
  intro start finish frame scopes
  cases frame with
  | component _ _ k =>
      rw [body, run_bind]
      show proceed s scopes (componentStep _ _ _ l sign k) = _
      rw [componentStep, proceed_bind]
      refine unknown_congr fun answer known => ?_
      cases answer with
      | none =>
          rw [run_bind]
          refine (sim _ _ _ (.coefficient l sign k) scopes).trans (run_congr fun scopes x => ?_)
          rw [run_bind, resume, componentRest, proceed_bind]
          refine unknown_congr fun answer known => ?_
          cases answer with
          | none =>
              rw [run_bind, run_lift, proceed_bind]
              exact attempt_congr fun l => rfl
          | some name =>
              obtain ⟨found, -⟩ := known name rfl
              rw [run_bind]
              refine Eq.trans ?_ (sim _ _ _ (.power l (sign * x.value) k) scopes)
              simp only [resume, powerStep, found]
      | some name =>
          -- The evaluator goes on to the missing coefficient, where the name is looked at again.
          obtain ⟨found, again⟩ := known name rfl
          rw [run_bind]
          show _ = (unknownName? scopes.current s.located s.read.located).outcome scopes _
          rw [again, proceed_bind, outcome_bind, outcome_see, outcome_see]
          refine congrArg (Outcome.after _) ?_
          refine Eq.trans ?_ (sim _ _ _ (.power l (sign * 1.0) k) scopes)
          simp only [resume, powerStep, found]

theorem body_factor {call : Calls .factor s} (sim : Simulated call) :
    Simulates (body .factor s call) := by
  intro start finish frame scopes
  cases frame with
  | factor l sign sofar k =>
      rw [body, run_bind, resume, factorStep, proceed_bind]
      refine unknown_congr fun answer _ => ?_
      rw [run_bind]
      refine (sim _ _ _ (.operand (.coefficient l sign sofar s.line k)) scopes).trans
        (run_congr fun scopes v => ?_)
      rw [run_bind, run_lift, resume]
      show proceed _ _ (coefficientStep _ _ _ v.value l sign sofar s.line k) = _
      rw [coefficientStep, proceed_bind]
      refine attempt_congr fun x => ?_
      cases sofar <;> rfl

theorem body_factors {x : Float} {call : Calls (.factors x) s} (sim : Simulated call) :
    Simulates (body (.factors x) s call) := by
  intro start finish frame scopes
  cases frame with
  | factors l sign _ k =>
      rw [body, resume]
      split
      · rename_i op found
        have operator : s.located.token.productOperator? = some op := found
        simp only [factorsStep, operator]
        rw [proceed_move (ne_end_of_product found), run_bind, run_advance, run_bind]
        refine congrArg (Outcome.after _) ?_
        show proceed s.read scopes (afterOperatorStep _ _ _ l sign op x k) = _
        rw [afterOperatorStep]
        by_cases multiplies : op = .multiply
        · rw [if_pos multiplies, if_pos multiplies, proceed_bind]
          refine unknown_congr fun answer known => ?_
          cases answer with
          | none =>
              rw [run_bind]
              refine (sim _ _ _ (.factor l sign (some (op, x)) k) scopes).trans
                (run_congr fun scopes y => ?_)
              rw [run_bind]
              exact sim _ _ _ (.factors l sign _ k) scopes
          | some name =>
              obtain ⟨-, again⟩ := known name rfl
              rw [run_pure, resume, componentRest, again, proceed_bind, proceed_bind, outcome_bind,
                outcome_see, outcome_see, outcome_pure]
        · rw [if_neg multiplies, if_neg multiplies, run_pure, run_bind]
          refine (sim _ _ _ (.factor l sign (some (op, x)) k) scopes).trans
            (run_congr fun scopes y => ?_)
          rw [run_bind]
          exact sim _ _ _ (.factors l sign _ k) scopes
      · rename_i found
        have operator : s.located.token.productOperator? = none := found
        simp only [factorsStep, operator]
        rfl

theorem step_afterVariable (l : Lambda) (c : Float) (k : Pending .expression) (scopes : Scopes) :
    resume s scopes (stepOf (.afterVariable l c k)) =
      resume s scopes (exponentRest s.line l c k) := by
  refine congrArg (proceed s scopes) ?_
  show afterVariableStep s.located s.read.located l c k = _
  unfold afterVariableStep
  split
  · rename_i found
    exact (if_pos found).symm
  · rename_i other
    exact (if_neg other).symm

theorem body_power {l : Lambda} {c : Float} {call : Calls (.power l c) s} (sim : Simulated call) :
    Simulates (body (.power l c) s call) := by
  intro start finish frame scopes
  cases frame with
  | power _ _ k =>
      rw [body, resume]
      split
      · rename_i name found
        have token : s.located.token = .identifier name := found
        simp only [powerStep, token, takeVariable]
        rw [proceed_bind, run_bind, run_lift]
        refine attempt_congr fun l => ?_
        rw [proceed_move (by simp [found]), run_bind, run_advance, run_bind]
        refine congrArg (Outcome.after _) ?_
        rw [step_afterVariable]
        refine (sim _ _ _ (.exponent s.read.line l c k) scopes).trans (run_congr fun scopes e => ?_)
        rw [run_bind, run_lift, resume, proceed_bind]
        exact attempt_congr fun l => rfl
      · rename_i other
        unfold powerStep
        split
        · rename_i name found
          exact absurd found (other name)
        · exact outcome_unexpected ..

theorem body_exponent {line : Nat} {call : Calls (.exponent line) s} (sim : Simulated call) :
    Simulates (body (.exponent line) s call) := by
  intro start finish frame scopes
  cases frame with
  | exponent _ l c k =>
      rw [body, resume, exponentRest]
      by_cases found : s.token = .caret
      · rw [dif_pos found, located_token, if_pos found, run_bind, run_advance,
          proceed_move (by simp [found]), run_bind]
        refine congrArg (Outcome.after _) ?_
        refine (proceed_expect _ _).trans (run_congr fun scopes p => ?_)
        rw [outcome_pure, run_bind]
        refine (sim _ _ _ (.term (.exponent l c line k)) scopes).trans
          (run_congr fun scopes v => ?_)
        rw [run_bind, run_lift, resume, termStep, exponentStep, proceed_bind]
        refine attempt_congr fun x => ?_
        rw [run_bind, proceed_expect (by decide)]
        refine run_congr fun scopes r => ?_
        rw [run_bind, run_lift, outcome_bind]
        refine attempt_congr fun degree => ?_
        rw [run_pure, outcome_bind, resume, proceed_bind]
        exact attempt_congr fun l => rfl
      · rw [dif_neg found, located_token, if_neg found]
        rfl

/-! ### Expressions and statements -/

/-- The innermost assignment is made first. -/
theorem deliver_cons (t next : Located) (v : Value Float) (name : String) (targets : List String)
    (k : Pending .goal) :
    deliver t next v (.into (name :: targets) k) =
      emit [.assigned name v] >>= fun _ => deliver t next v (.into targets k) := rfl

theorem body_expression {call : Calls .expression s} (sim : Simulated call) :
    Simulates (body .expression s call) := by
  intro start finish frame scopes
  cases frame with
  | expression k =>
      rw [body]
      show proceed s scopes (expressionStep _ _ _ k) = _
      split
      · rename_i found
        have token : s.located.token = .captureBegin := found
        refine Eq.trans ?_ (sim _ _ _ (.lambda k) scopes)
        simp only [expressionStep, token, resume, lambdaStep]
        rfl
      · rename_i name found
        have token : s.located.token = .identifier name := found
        simp only [expressionStep, token]
        rw [proceed_bind, run_bind, run_lift, outcome_see, outcome_see]
        refine congrArg (Outcome.after _) ?_
        by_cases assigns : s.read.token = .assign
        · rw [if_pos assigns, located_token, if_pos assigns, run_bind, run_advance,
            proceed_see (by simp [found]), run_bind, run_environment]
          refine congrArg (Outcome.after _) ?_
          by_cases known : scopes.current.contains name = true
          · cases k with
            | into targets goal =>
                rw [if_pos known, if_pos known, outcome_pure, run_bind]
                refine (proceed_expect _ (pure _)).trans (run_congr fun scopes p => ?_)
                rw [outcome_pure, run_bind]
                refine (sim _ _ _ (.expression (.into (name :: targets) goal)) scopes).trans
                  (run_congr fun scopes v => ?_)
                rw [resume, deliver_cons, proceed_bind, run_bind]
                rfl
          · rw [if_neg known, if_neg known]
            rfl
        · rw [if_neg assigns, located_token, if_neg assigns]
          exact sim _ _ _ (.term (.whole k)) scopes
      · rename_i notCapture notName
        refine Eq.trans ?_ (sim _ _ _ (.term (.whole k)) scopes)
        unfold expressionStep
        split
        · rename_i found
          exact absurd found notCapture
        · rename_i name found
          exact absurd found (notName name)
        · rfl

theorem body_statement {call : Calls .statement s} (sim : Simulated call) :
    Simulates (body .statement s call) := by
  intro start finish frame scopes
  cases frame with
  | statement =>
      rw [body, resume, statementRest]
      by_cases found : s.token = .var
      · rw [dif_pos found, located_token, if_pos found, run_bind, run_advance,
          proceed_move (by simp [found]), run_bind]
        refine congrArg (Outcome.after _) ?_
        refine (proceed_name fun name =>
          if scopes.current.contains name then fail (.redefinedName name) s.read.line
          else pure (.declareSign name)).trans (identifier_congr fun name => ?_)
        rw [run_bind, run_environment]
        by_cases known : scopes.current.contains name.value = true
        · rw [if_pos known, if_pos known]
          rfl
        · rw [if_neg known, if_neg known, outcome_pure, run_bind]
          refine (proceed_expect _ (pure _)).trans (run_congr fun scopes p => ?_)
          rw [outcome_pure, run_bind]
          refine (sim _ _ _ (.expression (.expression (.declare name.value))) scopes).trans
            (run_congr fun scopes v => ?_)
          rw [resume, deliver_expression, goalStep, proceed_bind, run_bind]
          rfl
      · rw [dif_neg found, located_token, if_neg found, run_bind]
        exact sim _ _ _ (.expression (.expression .discard)) scopes

theorem statementStep_eq {env : Env} {t next : Located} (more : t.token ≠ .endOfFile) :
    statementStep env t next =
      emit [.statement t.line] >>= fun _ => statementRest env t next := by
  unfold statementStep statementRest
  split
  · rename_i ended
    exact absurd ended more
  · rename_i found
    rw [if_pos found]
  · rename_i other
    rw [if_neg other]

theorem body_statements {call : Calls .statements s} (sim : Simulated call) :
    Simulates (body .statements s call) := by
  intro start finish frame scopes
  cases frame with
  | statements =>
      rw [body]
      by_cases ended : s.token = .endOfFile
      · rw [dif_pos ended, run_pure]
      · show proceed s scopes (statementStep _ _ _) = _
        rw [dif_neg ended, run_bind, run_lift, statementStep_eq ended, proceed_bind,
          outcome_statement, outcome_statement, run_bind]
        refine congrArg (Outcome.after _) ?_
        refine (sim _ _ _ .statement scopes).trans (run_congr fun scopes p => ?_)
        rw [run_bind]
        refine (proceed_expect _ (pure .statement)).trans (run_congr fun scopes q => ?_)
        rw [outcome_pure, run_bind]
        exact sim _ _ _ .statements scopes

end

/-- Every rule is simulated if the rules it calls are. -/
theorem body_simulates {s : Scanner} (read : HasRead s) :
    (r : Rule) → {call : Calls r s} → Simulated call → Simulates (body r s call)
  | .statements, _, sim => body_statements sim
  | .statement, _, sim => body_statement sim
  | .expression, _, sim => body_expression sim
  | .lambda, _, sim => body_lambda sim
  | .term, _, sim => body_term sim
  | .sum _, _, sim => body_sum sim
  | .addend, _, sim => body_addend sim
  | .product _, _, sim => body_product sim
  | .operand, _, sim => body_operand sim
  | .signedNumber, _, _ => body_signedNumber read
  | .call, _, sim => body_call sim
  | .generics .., _, sim => body_generics sim
  | .list _, _, sim => body_list sim
  | .items .., _, sim => body_items sim
  | .item _, _, sim => body_item sim
  | .polynomial _, _, sim => body_polynomial sim
  | .components _, _, sim => body_components sim
  | .component .., _, sim => body_component sim
  | .coefficient, _, sim => body_coefficient sim
  | .factors _, _, sim => body_factors sim
  | .factor, _, sim => body_factor sim
  | .power .., _, sim => body_power sim
  | .exponent _, _, sim => body_exponent sim

theorem Before.hasRead {r r' : Rule} {s s' : Scanner} (h : Before r' s' r s) (read : HasRead s) :
    HasRead s' := by
  cases h with
  | passed passed => exact passed.hasRead
  | lower => exact read

theorem parse_simulates (r : Rule) {s : Scanner} (read : HasRead s) : Simulates (parse r s) := by
  rw [parse]
  exact body_simulates read r fun r' s' before => parse_simulates r' (before.hasRead read)
termination_by (s.readsLeft, r.rank)
decreasing_by exact before.decreases

/-! ### Programs -/

/-- Evaluates the text of a program by recursive descent. -/
def descend (env : Env) (source : String) : Outcome :=
  ((parse .statements (Scanner.ofString source).read).run ⟨env, []⟩ fun scopes _ =>
    ⟨[], scopes.globals, .ok ()⟩).after [.token (Scanner.ofString source).read.located]

/-- Statements are over at the end of the text, and nothing is left to do. -/
theorem resume_ended {s : Scanner} (ended : s.token = .endOfFile) (scopes : Scopes) :
    resume s scopes (stepOf .statement) = ⟨[], scopes.globals, .ok ()⟩ := by
  have token : s.located.token = .endOfFile := ended
  show proceed s scopes (statementStep _ _ _) = _
  simp only [statementStep, token]
  rw [proceed, outcome_pure, if_pos ended]

theorem descend_eq (env : Env) (source : String) : descend env source = program env source := by
  have first : (scan source).take 1 = [(Scanner.ofString source).read.located] := by
    rw [scan, Scanner.tokens]
    split <;> rfl
  rw [program, evaluateTokens, first, scan, evaluate_tokens, evaluateFrom_eq ⟨_, rfl⟩,
    parse_simulates .statements ⟨_, rfl⟩ .statements, descend]
  refine congrArg (Outcome.after _) (run_congr fun scopes found => ?_)
  rw [resume_ended found.reached.2]

end PolyCalc.Descent
