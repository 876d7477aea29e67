import PolyCalc.Console
import PolyCalc.Proofs.Layout
import PolyCalc.Proofs.Scan

/-!
What runs leave on a console.

A run only appends to its console: what the program prints to the logs, and one
report to the errors if the program fails. The report names the kind of the
failure and ends with its line, which is the line of a token and so lies within
the text (`Console.run_appends`).
-/

namespace PolyCalc

/-! ### Lines of tokens -/

/-- Skipping trades newlines for lines. -/
theorem skipTrivia_line {inComment : Bool} {p q : Position} {cs rest : List Char}
    (skipped : skipTrivia inComment p cs = (q, rest)) :
    p.line ≤ q.line ∧ q.line + rest.count '\n' = p.line + cs.count '\n' := by
  obtain ⟨trivia, whole, place⟩ := skipTrivia_split inComment p cs
  simp only [skipped] at whole place
  rw [whole, place, Position.line_afterAll, List.count_append]
  omega

/-- No token stands above the first line of the text or below its last one. -/
theorem tokensFrom_line (p : Position) (cs : List Char) :
    ∀ t ∈ tokensFrom p cs, p.line ≤ t.line ∧ t.line ≤ p.line + cs.count '\n' := by
  induction p, cs using tokensFrom_induction with
  | nil p q cs skipped =>
      intro t member
      rw [tokensFrom_nil skipped, List.mem_singleton] at member
      subst member
      have lines := skipTrivia_line skipped
      rw [List.count_nil] at lines
      show p.line ≤ q.line ∧ q.line ≤ _
      omega
  | cons p q cs c rest skipped ih =>
      intro t member
      have lines := skipTrivia_line skipped
      -- The newlines that are left are in the token or after it.
      rw [← lexeme_text_append, List.count_append] at lines
      rw [tokensFrom_cons skipped] at member
      rcases List.mem_cons.mp member with rfl | later
      · show p.line ≤ q.line ∧ q.line ≤ _
        omega
      · have within := ih t later
        rw [Position.line_afterAll] at within
        omega

theorem scan_line {source : String} {t : Located} (member : t ∈ scan source) :
    1 ≤ t.line ∧ t.line ≤ 1 + source.toList.count '\n' := by
  rw [scan_eq] at member
  exact tokensFrom_line .start source.toList t member

/-! ### Reports -/

namespace Failure

/-- The text of a failure ends with its line. -/
theorem message_line (f : Failure) :
    ∃ text, f.message = text ++ ("[Line " ++ toString f.line ++ "]") := by
  refine ⟨f.fault.text ++ " ", ?_⟩
  have space : " [Line " = " " ++ "[Line " := rfl
  show f.fault.text ++ " [Line " ++ toString f.line ++ "]" = _
  rw [space]
  simp only [String.append_assoc]

end Failure

namespace Console

/-- A run appends what the program prints to the logs. If it succeeds the errors stay
as they are. If not, one report is appended to them: the kind of the failure and
its text, which ends with the line of one of the tokens, so with a line of the
text. -/
theorem run_appends (c : Console) (source : String) :
    (c.run source).1.logs = c.logs ++ (interpret source).printed ∧
      ((c.run source).2 = true → (c.run source).1.errors = c.errors) ∧
      ((c.run source).2 = false →
        ∃ failure text, ∃ t ∈ scan source, (interpret source).result = .error failure ∧
          (c.run source).1.errors = c.errors ++ [failure.kind.text ++ ": " ++ failure.message] ∧
          failure.message = text ++ ("[Line " ++ toString t.line ++ "]") ∧
          1 ≤ t.line ∧ t.line ≤ 1 + source.toList.count '\n') := by
  unfold run
  dsimp only
  cases ended : (interpret source).result with
  | ok =>
      refine ⟨rfl, fun _ => rfl, ?_⟩
      intro unsuccessful
      cases unsuccessful
  | error failure =>
      refine ⟨rfl, ?_, ?_⟩
      · intro successful
        cases successful
      · intro _
        obtain ⟨t, member, line⟩ := program_failure_line ended
        obtain ⟨text, message⟩ := failure.message_line
        have within := scan_line member
        exact ⟨failure, text, t, member, rfl, rfl, line ▸ message, within.1, within.2⟩

/-- The second statement has no end: the report is on the line below it. -/
theorem run_appends_failure :
    (Console.run ⟨[], ["earlier"]⟩ "print(2);\n1 +\n").2 = false ∧
      (Console.run ⟨[], ["earlier"]⟩ "print(2);\n1 +\n").1.errors =
        ["earlier", "SyntaxError: Unexpected token \"end of file\", " ++
          "expected a number, an identifier or \"(\" [Line 3]"] ∧
      ∃ failure text, ∃ t ∈ scan "print(2);\n1 +\n",
        (interpret "print(2);\n1 +\n").result = .error failure ∧
        failure.message = text ++ ("[Line " ++ toString t.line ++ "]") ∧ t.line ≤ 3 := by
  have failed : (Console.run ⟨[], ["earlier"]⟩ "print(2);\n1 +\n").2 = false := by decide +kernel
  obtain ⟨failure, text, t, member, result, -, message, -, within⟩ :=
    (run_appends ⟨[], ["earlier"]⟩ "print(2);\n1 +\n").2.2 failed
  have lines : 1 + "print(2);\n1 +\n".toList.count '\n' = 3 := by decide
  exact ⟨failed, by decide +kernel, failure, text, t, member, result, message, lines ▸ within⟩

end Console

end PolyCalc
