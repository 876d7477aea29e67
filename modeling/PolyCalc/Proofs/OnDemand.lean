import PolyCalc.Proofs.Complete.Run
import PolyCalc.Proofs.Scan.Longest
import PolyCalc.Proofs.Scan.Places
import PolyCalc.Proofs.WellFormed.Run

/-!
Evaluation while the text is scanned.

`program` scans the whole text and then evaluates its tokens. Here the evaluation
asks a scanner for one token after the other, and the value of a number is what the
scanner makes of its buffer, which names and numbers share. The two evaluations have
the same outcome (`Parsing.onDemand_eq`), since a number in turn is always the one in
the buffer: nothing is read between the number and its conversion, and looking ahead
leaves the buffer as it is. Numbers are therefore converted from literals only, and
programs have no internal faults (`program_not_internal`).
-/

namespace PolyCalc

/-! ### Numbers in the buffer -/

namespace Scanner

/-- After a read the buffer holds the number that was found, and it is a literal. -/
theorem read_number {s : Scanner} {literal : String} (found : s.read.token = .number literal) :
    s.read.literal = literal ∧ IsLiteral literal := by
  obtain ⟨gap, rest, -, -, -, ended | lexed⟩ := s.read_cases
  · rw [ended.2.1] at found
    cases found
  · obtain ⟨c, cs, -, token, -, -, buffer⟩ := lexed
    rw [token] at found
    rw [found] at buffer
    refine ⟨buffer, ?_⟩
    rcases (lexeme_munch c cs).legible with legible | ⟨d, stray⟩
    · rw [found] at legible
      exact legible
    · rw [found] at stray
      cases stray

/-- At the end of the text another read changes nothing. -/
theorem read_read {s : Scanner} (ended : s.read.token = .endOfFile) : s.read.read = s.read := by
  unfold read at ended ⊢
  split at ended
  · rfl
  · exact absurd ended (lexeme_token_ne _ _)

/-- Every token is found by a read. -/
theorem mem_tokens {s : Scanner} {t : Located} (member : t ∈ s.tokens) :
    ∃ s' : Scanner, t = s'.read.located := by
  induction s using tokens.induct with
  | case1 s ended =>
      rw [tokens, if_pos ended] at member
      exact ⟨s, List.mem_singleton.mp member⟩
  | case2 s more ih =>
      rw [tokens, if_neg more] at member
      rcases List.mem_cons.mp member with first | later
      · exact ⟨s, first⟩
      · exact ih later

/-- A bound on the reads that are left: each takes a character but the one that finds the
end. -/
def readsLeft (s : Scanner) : Nat := s.rest.length + if s.token = .endOfFile then 0 else 1

theorem readsLeft_read {s : Scanner} (more : s.token ≠ .endOfFile) :
    s.read.readsLeft < s.readsLeft := by
  unfold readsLeft
  rw [if_neg more]
  split
  · rename_i ended
    obtain ⟨gap, rest, -, -, -, atEnd | ⟨c, cs, -, token, -⟩⟩ := s.read_cases
    · rw [atEnd.2.2.1, List.length_nil]
      exact Nat.zero_lt_succ _
    · exact absurd (token.symm.trans ended) (lexeme_token_ne c cs)
  · rename_i goesOn
    have shorter := length_read_rest_lt goesOn
    omega

theorem tokens_headD (s : Scanner) (t : Located) : s.tokens.headD t = s.read.located := by
  rw [tokens]
  split <;> rfl

end Scanner

/-! ### Where numbers are used -/

/-- What is done with a number in turn: the events before it is converted, and the mode
that its value leads to. -/
structure NumberUse where
  before : List Event
  after : Float → Mode

/-- The use of a number in the mode, if it may have one. -/
def Mode.numberUse? (line : Nat) : Mode → Option NumberUse
  | .statement =>
      some ⟨[.statement line],
        fun x => .value (.number x) (.firstOperand (.whole (.expression .discard)))⟩
  | .expression k => some ⟨[], fun x => .value (.number x) (.firstOperand (.whole k))⟩
  | .firstArgument call k =>
      some ⟨[],
        fun x => .value (.number x) (.firstOperand (.whole (.expression (.argument call k))))⟩
  | .operand k => some ⟨[], fun x => .value (.number x) k⟩
  | .negated k => some ⟨[], fun x => .value (.number (-x)) k⟩
  | .firstGeneric call k => some ⟨[], fun x => .afterGeneric call [x] k⟩
  | .generic call generics k => some ⟨[], fun x => .afterGeneric call (generics ++ [x]) k⟩
  | .negatedGeneric call generics k => some ⟨[], fun x => .afterGeneric call (generics ++ [-x]) k⟩
  | .body l k => some ⟨[], fun x => .value (.number x) (.coefficient l 1.0 none line k)⟩
  | .component l sign k =>
      some ⟨[], fun x => .value (.number x) (.coefficient l sign none line k)⟩
  | .factor l sign op c k =>
      some ⟨[], fun x => .value (.number x) (.coefficient l sign (some (op, c)) line k)⟩
  | .declareName | .declareSign _ | .assignSign .. | .value .. | .callee .. | .afterGeneric ..
  | .openArguments .. | .firstCapture .. | .capture .. | .afterCapture .. | .arrow ..
  | .afterVariable .. | .openExponent .. | .afterComponent .. => none

open Traced

/-- A step that uses a number converts its literal, moves on, and goes to the mode for its
value. -/
theorem step_number {env : Env} {t next : Located} {m : Mode} {literal : String} {use : NumberUse}
    (found : t.token = .number literal) (uses : m.numberUse? t.line = some use) :
    step env t next m = do
      emit use.before
      let x ← literalValue t literal
      see next
      return use.after x := by
  -- Before a number is used, steps only look whether it is something else.
  have notVariable : unknownName? env t next = pure none := by
    unfold unknownName?
    split
    · rename_i name isName
      rw [found] at isName
      cases isName
    · rfl
  have operand (k : Pending .operand) : operandStep env t next k =
      literalValue t literal >>= fun x => see next >>= fun _ => pure (.value (.number x) k) := by
    simp only [operandStep, found]
  have term (k : Pending .expression) : expressionStep env t next k =
      operandStep env t next (.firstOperand (.whole k)) := by
    simp only [expressionStep, found]
  cases m <;> cases uses
  case statement => simp only [step, statementStep, found, term, operand]
  case expression => exact (term _).trans (operand _)
  case firstArgument =>
    simp only [step, firstArgumentStep, found, term, operand]
    rfl
  case operand => exact operand _
  case negated =>
    simp only [step, negatedStep, found]
    rfl
  case firstGeneric =>
    simp only [step, firstGenericStep, genericStep, found]
    rfl
  case generic =>
    simp only [step, genericStep, found]
    rfl
  case negatedGeneric =>
    simp only [step, negatedGenericStep, found]
    rfl
  case body =>
    simp only [step, bodyStep, componentStep, factorStep, found, notVariable, pure_bind, operand]
    rfl
  case component =>
    simp only [step, componentStep, factorStep, notVariable, pure_bind, operand]
    rfl
  case factor l sign op c k =>
    simp only [step, afterOperatorStep, factorStep, notVariable, pure_bind, operand]
    split <;> rfl

/-- The number in turn has a use from here on. -/
def Control.UsesNumber (line : Nat) : Control → Prop
  | .mode m => (m.numberUse? line).isSome = true
  | .deliver .. => False

theorem Mode.Converts.uses {m : Mode} (converts : m.Converts) (line : Nat) :
    (m.numberUse? line).isSome = true := by
  cases m <;> first | rfl | cases converts

section

variable {env : Env} {t next : Located} {c c' : Control} {events : List Event}

/-- A number that is used later in a step has its use from the start. -/
theorem Settles.uses (settled : Settles env t next c events c') (later : c'.UsesNumber t.line) :
    c.UsesNumber t.line := by
  cases settled with
  | statement | term | argument | generic | body | firstFactor | factor => rfl
  | capture | multiply | add | constant | linear => cases later
  | whole | built | assigned | declared => exact later.elim

/-- A step that finds a malformed number was about to use it. -/
theorem Reaches.malformed {result : Except Failure Mode} {failure : Failure} {literal : String}
    (reached : Reaches env t next c events result) (failed : result = .error failure)
    (malformed : failure.fault = .malformedNumber literal) :
    c.UsesNumber t.line ∧ ∃ found, t.token = .number found := by
  induction reached with
  | settles settled _ ih =>
      obtain ⟨later, number⟩ := ih failed
      exact ⟨settled.uses later, number⟩
  | takes => cases failed
  | stops stopped =>
      cases failed
      have internal : failure.kind = .internal := congrArg Fault.kind malformed
      rcases stopped.internal internal with ⟨m, found, rfl, converts, number, -⟩ | ⟨missed, -⟩
      · exact ⟨converts.uses t.line, found, number⟩
      · rw [missed] at malformed
        cases malformed

end

/-! ### Evaluation on demand -/

/-- An evaluation under way, with the scanner on the token in turn. -/
structure Parsing where
  scopes : Scopes
  mode : Mode
  scanner : Scanner

namespace Parsing

/-- The use of the token in turn, if it is a number that is to be converted. -/
def numberUse? (p : Parsing) : Option NumberUse :=
  match p.scanner.token with
  | .number _ => p.mode.numberUse? p.scanner.line
  | _ => none

/-- One step. The value of a number comes from the buffer of the scanner. -/
def stepped (p : Parsing) : Traced Mode :=
  match p.numberUse? with
  | some use => do
      emit use.before
      let x ← (⟨[], p.scanner.number⟩ : Traced Float)
      see p.scanner.read.located
      return use.after x
  | none => step p.scopes.current p.scanner.located p.scanner.read.located p.mode

/-- Whether the token in turn is a number that is converted. -/
def converts (p : Parsing) : Bool := p.numberUse?.isSome

/-- The evaluation after a step, with the scanner on the token that follows. -/
def next (p : Parsing) (mode : Mode) : Parsing :=
  ⟨p.scopes.replay p.stepped.events, mode, p.scanner.read⟩

/-- Evaluates from here to the end of the text or to the first failure. -/
def run (p : Parsing) : Outcome :=
  match p.stepped.result with
  | .ok mode =>
      if _ended : p.scanner.token = .endOfFile then
        ⟨p.stepped.events, (p.next mode).scopes.globals, .ok ()⟩
      else (p.next mode).run.after p.stepped.events
  | .error failure =>
      ⟨p.stepped.events, (p.scopes.replay p.stepped.events).globals, .error failure⟩
termination_by p.scanner.readsLeft
decreasing_by exact Scanner.readsLeft_read (by assumption)

/-- The evaluation before the first statement. The first token has been read. -/
def start (env : Env) (source : String) : Parsing :=
  ⟨⟨env, []⟩, .statement, (Scanner.ofString source).read⟩

/-- Evaluates the text of a program while it is scanned. -/
def onDemand (env : Env) (source : String) : Outcome :=
  (start env source).run.after [.token (start env source).scanner.located]

/-- The states that an evaluation of the text goes through. -/
inductive Reached (env : Env) (source : String) : Parsing → Prop where
  | start : Reached env source (start env source)
  | step {p mode} : Reached env source p → p.scanner.token ≠ .endOfFile →
      p.stepped.result = .ok mode → Reached env source (p.next mode)

/-! ### Both evaluations agree -/

/-- The buffer of a scanner that has just read a number stands for its literal. -/
theorem number_eq {s : Scanner} {literal : String} (buffer : s.literal = literal) :
    (⟨[], s.number⟩ : Traced Float) = literalValue s.located literal := by
  subst buffer
  unfold Scanner.number literalValue
  cases Number.read? s.literal with
  | some x => rfl
  | none => rfl

theorem stepped_eq (scopes : Scopes) (m : Mode) (s : Scanner) :
    (⟨scopes, m, s.read⟩ : Parsing).stepped =
      step scopes.current s.read.located s.read.read.located m := by
  unfold stepped
  split
  · rename_i use uses
    unfold numberUse? at uses
    split at uses
    · rename_i literal found
      rw [@step_number _ s.read.located _ _ _ _ found uses,
        number_eq (Scanner.read_number found).1]
    · cases uses
  · rfl

/-- Reading on demand is evaluating all tokens, by induction on the tokens that are left. -/
theorem run_eq (scopes : Scopes) (m : Mode) (s : Scanner) :
    (⟨scopes, m, s.read⟩ : Parsing).run = evaluate scopes m s.tokens := by
  induction s using Scanner.tokens.induct generalizing scopes m with
  | case1 s ended =>
      have stepped := stepped_eq scopes m s
      rw [Scanner.read_read ended] at stepped
      rw [run, Scanner.tokens, if_pos ended, evaluate]
      cases result : (step scopes.current s.read.located s.read.located m).result with
      | ok mode =>
          simp only [next, stepped, result, List.headD_nil, dif_pos ended, evaluate, Outcome.after,
            List.append_nil]
      | error failure => simp only [stepped, result, List.headD_nil]
  | case2 s more ih =>
      have stepped := stepped_eq scopes m s
      rw [run, Scanner.tokens, if_neg more, evaluate, Scanner.tokens_headD]
      cases result : (step scopes.current s.read.located s.read.read.located m).result with
      | ok mode => simp only [next, stepped, result, dif_neg more, ih]
      | error failure => simp only [stepped, result]

theorem onDemand_eq (env : Env) (source : String) : onDemand env source = program env source := by
  have first : (scan source).take 1 = [(start env source).scanner.located] := by
    rw [scan, Scanner.tokens]
    split <;> rfl
  rw [program, evaluateTokens, first, onDemand, start, run_eq]
  rfl

/-- Numbers are converted nowhere else, whatever the token and the buffer are. -/
theorem malformed_converts {p : Parsing} {failure : Failure} {literal : String}
    (failed : p.stepped.result = .error failure)
    (malformed : failure.fault = .malformedNumber literal) : p.converts = true := by
  unfold stepped at failed
  split at failed
  · rename_i use uses
    rw [converts, uses]
    rfl
  · obtain ⟨uses, found, number⟩ := Reaches.malformed (step_follows p.mode) failed malformed
    have token : p.scanner.token = .number found := number
    simp only [converts, numberUse?, token]
    exact uses

/-- The scanner of an evaluation has read the token in turn, and nothing after it. -/
theorem Reached.scanner {env : Env} {source : String} {p : Parsing}
    (reached : Reached env source p) : ∃ s : Scanner, p.scanner = s.read := by
  induction reached with
  | start => exact ⟨_, rfl⟩
  | step _ _ _ => exact ⟨_, rfl⟩

/-- A number that is used is the one in the buffer, and can be converted. -/
theorem Reached.number {env : Env} {source : String} {p : Parsing} (reached : Reached env source p)
    (converted : p.converts = true) :
    ∃ literal, p.scanner.token = .number literal ∧ p.scanner.literal = literal ∧
      IsLiteral literal ∧ ∃ x, p.scanner.number = .ok x := by
  obtain ⟨s, scanner⟩ := reached.scanner
  unfold converts numberUse? at converted
  split at converted
  · rename_i literal found
    rw [scanner] at found ⊢
    obtain ⟨buffer, isLiteral⟩ := Scanner.read_number found
    obtain ⟨x, read⟩ := isLiteral.read
    refine ⟨literal, found, buffer, isLiteral, x, ?_⟩
    rw [Scanner.number, buffer, read]
  · cases converted

end Parsing

/-! ### Programs -/

theorem scan_isLiteral {source : String} {t : Located} {literal : String} (member : t ∈ scan source)
    (found : t.token = .number literal) : IsLiteral literal := by
  obtain ⟨s, rfl⟩ := Scanner.mem_tokens member
  exact (Scanner.read_number found).2

theorem program_internal {env : Env} {source : String} {failure : Failure}
    (failed : (program env source).result = .error failure) (internal : failure.kind = .internal) :
    failure.fault = .outOfRange ∧ ¬ env.All Value.Complete := by
  rw [program_result] at failed
  obtain ⟨missed, incomplete⟩ :=
    evaluate_internal (fun t member _ => scan_isLiteral member) failed internal
  refine ⟨missed, fun complete => incomplete ⟨⟨complete, ?_⟩, ?_⟩⟩
  · exact fun _ member => nomatch member
  · exact fun _ member => nomatch member

/-- Programs are evaluated while they are scanned. Whenever the scanner is asked for the value
of its buffer, the token in turn is a number and the buffer holds its literal, and numbers are
converted nowhere else. So no number is malformed, in any environment. With complete values
there is no internal fault at all: only values that no operation makes lack an entry that is
accessed. -/
theorem program_not_internal (env : Env) (source : String) :
    Parsing.onDemand env source = program env source ∧
      (∀ p, Parsing.Reached env source p → p.converts = true →
        ∃ literal, p.scanner.token = .number literal ∧ p.scanner.literal = literal ∧
          IsLiteral literal ∧ ∃ x, p.scanner.number = .ok x) ∧
      (∀ (p : Parsing) failure literal, p.stepped.result = .error failure →
        failure.fault = .malformedNumber literal → p.converts = true) ∧
      ∀ failure, (program env source).result = .error failure →
        (∀ literal, failure.fault ≠ .malformedNumber literal) ∧
          (env.All Value.Complete → failure.kind ≠ .internal) := by
  refine ⟨Parsing.onDemand_eq env source, fun p reached => reached.number,
    fun p _ _ => Parsing.malformed_converts, ?_⟩
  intro failure failed
  constructor
  · intro literal malformed
    have internal : failure.kind = .internal := congrArg Fault.kind malformed
    rw [(program_internal failed internal).1] at malformed
    cases malformed
  · intro complete internal
    exact (program_internal failed internal).2 complete

/-- A number is converted, and then the name after it is unexpected. A scanner with a name in
its buffer, which no text leads to, makes the conversion fail. -/
theorem program_not_internal_unexpected :
    (Parsing.start .preloaded "2.5 x;").converts = true ∧
      (∃ literal, (Parsing.start .preloaded "2.5 x;").scanner.token = .number literal ∧
        (Parsing.start .preloaded "2.5 x;").scanner.literal = literal ∧ IsLiteral literal) ∧
      (∃ (p : Parsing) (failure : Failure), p.stepped.result = .error failure ∧
        failure.fault = .malformedNumber "x" ∧ p.converts = true) ∧
      Env.preloaded.All Value.Complete ∧
      ∃ failure, (program .preloaded "2.5 x;").result = .error failure ∧
        failure.kind ≠ .internal := by
  obtain ⟨-, converted, only, faults⟩ := program_not_internal .preloaded "2.5 x;"
  have converts : (Parsing.start .preloaded "2.5 x;").converts = true := by decide +kernel
  have complete : Env.preloaded.All Value.Complete :=
    fun name v bound => (Env.preloaded_wellFormed name v bound).complete
  have fails : (program .preloaded "2.5 x;").result.isOk = false := by decide +kernel
  obtain ⟨literal, found, buffer, isLiteral, -⟩ := converted _ .start converts
  refine ⟨converts, ⟨literal, found, buffer, isLiteral⟩, ?_, complete, ?_⟩
  · have stopped : (⟨⟨.empty, []⟩, .statement, ⟨[], .start, .number "1", .start, "x"⟩⟩ :
        Parsing).stepped.result = .error ⟨.malformedNumber "x", 1⟩ := by
      rfl
    exact ⟨_, _, stopped, rfl, only _ _ "x" stopped rfl⟩
  cases result : (program .preloaded "2.5 x;").result with
  | ok done =>
      rw [result] at fails
      cases fails
  | error failure => exact ⟨failure, rfl, (faults failure result).2 complete⟩

end PolyCalc
