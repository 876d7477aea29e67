import PolyCalc.Proofs.Descent.Run

/-!
Progress and termination of recursive descent.

A token that is used up has at least one byte, so the bytes from the start of the token in turn
on are a measure of what is left (`bytesLeft`). A chain of calls that comes back to a rule, or
to one of its rank or above, has used up a token. A rule that succeeds has used up one too,
unless it is for something that may be missing; at the end of the text nothing can be used up,
and such a rule reports what it expects there.
-/

namespace PolyCalc

/-! ### Bytes -/

namespace Scanner

variable {s s' : Scanner}

/-- The bytes from the start of the token in turn to the end of the text. -/
def bytesLeft (s : Scanner) : Nat :=
  (s.position.offset - s.start.offset) + String.utf8Len s.rest

/-- A token has a byte. -/
theorem HasRead.start_lt (read : s.HasRead) (more : s.token ≠ .endOfFile) :
    s.start.offset < s.position.offset := by
  obtain ⟨s₀, rfl⟩ := read
  obtain ⟨gap, rest, -, -, start, ended | ⟨c, cs, -, -, -, position, -⟩⟩ := s₀.read_cases
  · exact absurd ended.2.1 more
  · rw [position, start, Position.offset_afterAll _ (lexeme c cs).text]
    have bytes : String.utf8Len (lexeme c cs).text ≠ 0 :=
      mt String.utf8Len_eq_zero.mp (lexeme_munch c cs).text_ne_nil
    omega

theorem position_le_read_start (s : Scanner) : s.position.offset ≤ s.read.start.offset := by
  obtain ⟨gap, rest, -, -, start, -⟩ := s.read_cases
  rw [start, Position.offset_afterAll]
  exact Nat.le_add_right ..

/-- The next token takes its bytes from the rest. -/
theorem bytesLeft_read_le (s : Scanner) : s.read.bytesLeft ≤ String.utf8Len s.rest := by
  obtain ⟨gap, rest, split, -, start, ended | ⟨c, cs, rfl, -, remains, position, -⟩⟩ := s.read_cases
  · rw [bytesLeft, start, ended.2.2.1, ended.2.2.2, Nat.sub_self]
    exact Nat.zero_le _
  · have whole := congrArg String.utf8Len (lexeme_text_append c cs)
    rw [String.utf8Len_append] at whole
    rw [bytesLeft, position, start, remains, Position.offset_afterAll _ (lexeme c cs).text, split,
      String.utf8Len_append]
    omega

theorem bytesLeft_read (read : s.HasRead) (more : s.token ≠ .endOfFile) :
    s.read.bytesLeft < s.bytesLeft := by
  have byte := read.start_lt more
  have rest := s.bytesLeft_read_le
  rw [bytesLeft] at rest ⊢
  rw [bytesLeft]
  omega

theorem Passed.start_lt (h : s.Passed s') (read : s.HasRead) :
    s.start.offset < s'.start.offset := by
  induction h with
  | single consumed =>
      obtain ⟨more, rfl⟩ := consumed
      exact (read.start_lt more).trans_le s.position_le_read_start
  | @tail mid _ before consumed ih =>
      obtain ⟨more, rfl⟩ := consumed
      have here : mid.start.offset < mid.position.offset :=
        Passed.hasRead before |>.start_lt more
      have next := mid.position_le_read_start
      omega

theorem Passed.bytesLeft_lt (h : s.Passed s') (read : s.HasRead) : s'.bytesLeft < s.bytesLeft := by
  induction h with
  | single consumed =>
      obtain ⟨more, rfl⟩ := consumed
      exact bytesLeft_read read more
  | @tail mid _ before consumed ih =>
      obtain ⟨more, rfl⟩ := consumed
      exact (bytesLeft_read (Passed.hasRead before) more).trans ih

end Scanner

namespace Descent

open Scanner Scoped Traced

/-! ### Calls -/

/-- The first rule may call the second one. -/
def MayCall (a b : Rule × Scanner) : Prop := Before b.1 b.2 a.1 a.2

/-- Reasons for calls add up along a chain of calls. -/
theorem Before.trans {r r' r'' : Rule} {s s' s'' : Scanner} (h' : Before r'' s'' r' s')
    (h : Before r' s' r s) : Before r'' s'' r s := by
  cases h with
  | passed passed =>
      cases h' with
      | passed further => exact .passed (passed.trans further)
      | lower => exact .passed passed
  | lower lower =>
      cases h' with
      | passed passed => exact .passed passed
      | lower further => exact .lower (further.trans lower)

theorem before_of_calls {a b : Rule × Scanner} (calls : Relation.TransGen MayCall a b) :
    Before b.1 b.2 a.1 a.2 := by
  induction calls with
  | single call => exact call
  | tail _ call ih => exact call.trans ih

/-- No rule comes back to its own rank, or above it, on the same token. -/
theorem passed_of_calls {a b : Rule × Scanner} (calls : Relation.TransGen MayCall a b)
    (back : a.1.rank ≤ b.1.rank) : a.2.Passed b.2 := by
  obtain ⟨r, s⟩ := a
  obtain ⟨r', s'⟩ := b
  cases before_of_calls calls with
  | passed passed => exact passed
  | lower lower => exact absurd back lower.not_ge

/-- With every call there are fewer bytes left, or as many and the rank is lower. -/
theorem Before.bytesLeft {r r' : Rule} {s s' : Scanner} (h : Before r' s' r s) (read : s.HasRead) :
    Prod.Lex (· < ·) (· < ·) (s'.bytesLeft, r'.rank) (s.bytesLeft, r.rank) := by
  cases h with
  | passed passed => exact .left _ _ (passed.bytesLeft_lt read)
  | lower lower => exact .right _ lower

/-! ### The end of the text -/

/-- Whether the rule is for something that has a token. -/
def Rule.isSolid : Rule → Bool
  | statements | sum _ | product _ | generics .. | components _ | factors _ | exponent _ => false
  | _ => true

theorem Rule.passed_of_reach {r : Rule} {s s' : Scanner} (solid : r.isSolid = true)
    (reached : r.Reach s s') : s.Passed s' := by
  cases r <;> first | exact reached | cases solid

/-- The computation that finds another token than expected. -/
abbrev stops {α : Type} (s : Scanner) (expected : Expected) : Scoped α :=
  liftM (unexpected s.located expected)

theorem stops_bind {α β : Type} (s : Scanner) (expected : Expected) (f : α → Scoped β) :
    stops s expected >>= f = stops s expected := by
  funext scopes
  exact unexpected_bind ..

section

variable {s : Scanner} (ended : s.token = .endOfFile)

include ended

theorem identifier_ended : identifier s = stops s .identifier := by
  rw [identifier]
  split
  · rename_i found
    cases ended.symm.trans found
  · rfl

theorem literal_ended : literal s = stops s .number := by
  rw [literal]
  split
  · rename_i found
    cases ended.symm.trans found
  · rfl

theorem unknown_ended : unknown? s = pure none := by
  funext scopes
  have token : s.located.token = .endOfFile := ended
  simp only [unknown?, unknownName?, token]
  rfl

theorem signedNumber_ended : parse .signedNumber s = stops s .number := by
  rw [parse, body, dif_neg (by simp [ended]), literal_ended ended]

theorem operand_ended : parse .operand s = stops s .operand := by
  rw [parse, body]
  split <;> rename_i found
  on_goal 5 => rfl
  all_goals cases ended.symm.trans found

theorem addend_ended : parse .addend s = stops s .operand := by
  rw [parse, body, operand_ended ended, stops_bind]

theorem term_ended : parse .term s = stops s .operand := by
  rw [parse, body, addend_ended ended, stops_bind]

theorem expression_ended : parse .expression s = stops s .operand := by
  rw [parse, body]
  split <;> rename_i found
  on_goal 3 => exact term_ended ended
  all_goals cases ended.symm.trans found

theorem factor_ended : parse .factor s = stops s .operand := by
  rw [parse, body, unknown_ended ended, operand_ended ended]
  exact stops_bind ..

theorem coefficient_ended : parse .coefficient s = stops s .operand := by
  rw [parse, body, factor_ended ended, stops_bind]

theorem component_ended (l : Lambda) (sign : Float) :
    parse (.component l sign) s = stops s .operand := by
  rw [parse, body, unknown_ended ended, coefficient_ended ended]
  exact stops_bind ..

theorem item_ended (i : Item) : ∃ expected, parse (.item i) s = stops s expected := by
  cases i with
  | name => exact ⟨.identifier, by rw [parse, body, identifier_ended ended]⟩
  | signedNumber => exact ⟨.number, by rw [parse, body, signedNumber_ended ended]⟩
  | expression => exact ⟨.operand, by rw [parse, body, expression_ended ended]⟩

theorem items_ended (i : Item) (sofar : List (ItemValue i)) :
    ∃ expected, parse (.items i sofar) s = stops s expected := by
  obtain ⟨expected, item⟩ := item_ended ended i
  exact ⟨expected, by rw [parse, body, item, stops_bind]⟩

/-- At the end of the text a rule finds nothing, and says what it expects instead. -/
theorem parse_ended {r : Rule} (solid : r.isSolid = true) :
    ∃ expected, parse r s = stops s expected := by
  cases r with
  | statements | sum | product | generics | components | factors | exponent => cases solid
  | statement =>
      exact ⟨.operand, by
        rw [parse, body, dif_neg (by simp [ended]), expression_ended ended, stops_bind]⟩
  | expression => exact ⟨_, expression_ended ended⟩
  | lambda => exact ⟨.identifier, by rw [parse, body, dif_pos ended]⟩
  | term => exact ⟨_, term_ended ended⟩
  | addend => exact ⟨_, addend_ended ended⟩
  | operand => exact ⟨_, operand_ended ended⟩
  | signedNumber => exact ⟨_, signedNumber_ended ended⟩
  | call => exact ⟨.identifier, by rw [parse, body, identifier_ended ended, stops_bind]⟩
  | list i =>
      have other : s.token ≠ closing i := fun closes => closing_ne i (closes.symm.trans ended)
      obtain ⟨expected, items⟩ := items_ended ended i []
      exact ⟨expected, by rw [parse, body, dif_neg other, items]⟩
  | items i sofar => exact items_ended ended i sofar
  | item i => exact item_ended ended i
  | polynomial l =>
      exact ⟨.operand, by
        rw [parse, body, dif_neg (by simp [ended]), component_ended ended, stops_bind]⟩
  | component l sign => exact ⟨_, component_ended ended l sign⟩
  | coefficient => exact ⟨_, coefficient_ended ended⟩
  | factor => exact ⟨_, factor_ended ended⟩
  | power l c =>
      refine ⟨.identifier, ?_⟩
      rw [parse, body]
      split
      · rename_i found
        cases ended.symm.trans found
      · rfl

end

/-! ### Progress -/

/-- Programs are read by recursive descent. The rules call each other as `body` says, and each call
comes with its reason, so that every chain of calls from a rule back to its own rank or above has
used up a token: this holds of the rounds of every loop, and of all that stands in parentheses, in
arguments, after `:=`, in a lambda or in an exponent. With each call there are fewer bytes left, or
as many and a rule of lower rank. Hence the rules are defined on all scanners, in all scopes, and
programs are what they make of the text. Where a rule succeeds, the start of the token in turn has
moved on; at the end of the text it fails, in the middle of whatever it is. -/
theorem parse_progresses :
    (∀ r s, parse r s = body r s fun r' s' _ => parse r' s') ∧
    (∀ a b, Relation.TransGen MayCall a b → a.1.rank ≤ b.1.rank → a.2.Passed b.2) ∧
    (∀ a b, MayCall a b → a.2.HasRead →
      Prod.Lex (· < ·) (· < ·) (b.2.bytesLeft, b.1.rank) (a.2.bytesLeft, a.1.rank)) ∧
    (∀ r s scopes found, r.isSolid = true → s.HasRead → (parse r s scopes).result = .ok found →
      s.start.offset < found.scanner.start.offset ∧ found.scanner.bytesLeft < s.bytesLeft) ∧
    (∀ r s, r.isSolid = true → s.token = .endOfFile →
      ∃ expected, parse r s = stops s expected) ∧
    ∀ env source, descend env source = program env source := by
  refine ⟨fun r s => ?_, fun a b => passed_of_calls, fun a b => Before.bytesLeft, ?_,
    fun r s solid ended => parse_ended ended solid, descend_eq⟩
  · rw [parse]
  · intro r s scopes found solid read _
    have passed := Rule.passed_of_reach solid found.reached
    exact ⟨passed.start_lt read, passed.bytesLeft_lt read⟩

/-- A text that ends within parentheses: the operand calls for an expression after `(`, the signed
number is found, and there is nothing after it. -/
theorem parse_progresses_truncated :
    ∃ s found, s = (Scanner.ofString "(-2").read ∧ s.HasRead ∧
      MayCall (.operand, s) (.expression, s.read) ∧ s.Passed s.read ∧
      (parse .signedNumber s.read ⟨.preloaded, []⟩).result = .ok found ∧
      s.read.start.offset < found.scanner.start.offset ∧
      found.scanner.token = .endOfFile ∧
      ∃ expected, parse .term found.scanner = stops found.scanner expected := by
  obtain ⟨-, calls, -, advances, ends, -⟩ := parse_progresses
  have opens : (Scanner.ofString "(-2").read.token ≠ .endOfFile := by decide +kernel
  have call : MayCall (.operand, (Scanner.ofString "(-2").read)
      (.expression, (Scanner.ofString "(-2").read.read) := .passed (.read opens)
  obtain ⟨found, ok, last⟩ : ∃ found,
      (parse .signedNumber (Scanner.ofString "(-2").read.read ⟨.preloaded, []⟩).result = .ok found ∧
        found.scanner.token = .endOfFile := by
    rw [parse]
    exact ⟨_, rfl, by decide +kernel⟩
  refine ⟨_, found, rfl, ⟨_, rfl⟩, call, calls _ _ (.single call) (by decide), ok, ?_, last,
    ends _ _ rfl last⟩
  exact (advances _ _ _ _ rfl ⟨_, rfl⟩ ok).1

end Descent

end PolyCalc
