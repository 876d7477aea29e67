import PolyCalc.Mat.Text
import PolyCalc.Proofs.Grid
import PolyCalc.Proofs.OnDemand
import PolyCalc.Proofs.Scan.Slices

/-!
Accesses of whole programs.

An access that misses is a fault, and there are three places where one would show.
Inside an evaluation it is the failure that ends it. The text of a value is made of the
rows of its matrix after the value has been printed, so a miss shows in no result
there; every printed or bound matrix has all its rows instead (`Mat.lines_ok`). The
text of the program is sliced at the place of the scanner (`Cursor.serveAll_eq`).

From the initial environment none of the three ever misses (`program_accesses`).
-/

namespace PolyCalc

/-! ### Texts of matrices -/

namespace Mat

/-- Every row of a complete matrix has its line. -/
theorem lines_ok {m : Mat Float} (complete : m.Complete) : ∃ rows, m.lines = .ok rows := by
  apply FaultsIn.total
  refine .mapM fun r member => ?_
  rw [complete.row_eq (List.mem_range.mp member)]
  exact .ok _

end Mat

/-! ### Values in journals -/

/-- Sights of tokens hold no values. -/
theorem mem_effects_of_values {events : List Event} {e : Event} {v : Value Float}
    (member : e ∈ events) (held : v ∈ e.values) : e ∈ effects events := by
  refine List.mem_filter.mpr ⟨member, ?_⟩
  cases e with
  | token => cases held
  | _ => rfl

theorem program_journal_wellFormed {env : Env} (h : env.All Value.WellFormed) {source : String}
    {e : Event} (member : e ∈ (program env source).journal) {v : Value Float}
    (held : v ∈ e.values) : v.WellFormed := by
  have effect := mem_effects_of_values member held
  rw [program_effects] at effect
  exact evaluate_journal_wellFormed h (scan source) e effect v held

/-! ### Scanners of evaluations -/

/-- An evaluation only ever asks its scanner for the next token. -/
theorem Parsing.Reached.serveAll {env : Env} {source : String} {p : Parsing}
    (reached : Reached env source p) :
    ∃ requests, p.scanner = (Scanner.ofString source).serveAll requests := by
  induction reached with
  | start => exact ⟨[.read], rfl⟩
  | @step p mode _ _ _ ih =>
      obtain ⟨requests, scanner⟩ := ih
      refine ⟨requests ++ [.read], ?_⟩
      show p.scanner.read = _
      rw [scanner, Scanner.serveAll, Scanner.serveAll, List.foldl_append]
      rfl

/-! ### Programs -/

/-- From the initial environment no program has an access out of range. No evaluation
fails with one. Every matrix that is printed or bound on the way, whatever becomes of the
program later, has a line for each of its rows. No slice of the text misses, whatever the
scanner is asked for, and the evaluation asks it for nothing else. -/
theorem program_accesses (source : String) :
    (∀ failure, (program .preloaded source).result = .error failure →
        failure.fault ≠ .outOfRange) ∧
      (∀ e ∈ (program .preloaded source).journal, ∀ v ∈ e.values, ∀ m, v = .matrix m →
        ∃ rows, m.lines = .ok rows) ∧
      (∀ requests, (Cursor.ofString source).serveAll source requests =
        .ok ((Scanner.ofString source).serveAll requests).cursor) ∧
      ∀ p, Parsing.Reached .preloaded source p →
        ∃ requests, p.scanner = (Scanner.ofString source).serveAll requests := by
  refine ⟨?_, ?_, Cursor.serveAll_eq source, fun p reached => reached.serveAll⟩
  · intro failure failed missed
    have internal : failure.kind = .internal := congrArg Fault.kind missed
    refine (program_internal failed internal).2 fun name v bound => ?_
    exact (Env.preloaded_wellFormed name v bound).complete
  · rintro e member v held m rfl
    have sound := program_journal_wellFormed Env.preloaded_wellFormed member held
    exact Mat.lines_ok sound.complete

/-- A product of matrices is printed before a call without the argument that it reads. -/
theorem program_accesses_product :
    (∃ failure,
      (program .preloaded "print(mat<1,2>(3, 4) * vec<2>(1, 2)); derive();").result =
          .error failure ∧
        failure.fault ≠ .outOfRange) ∧
      ∃ e ∈ (program .preloaded "print(mat<1,2>(3, 4) * vec<2>(1, 2)); derive();").journal,
        ∃ m rows, .matrix m ∈ e.values ∧ m.lines = .ok rows := by
  obtain ⟨inside, whole, -⟩ :=
    program_accesses "print(mat<1,2>(3, 4) * vec<2>(1, 2)); derive();"
  have failed : (program .preloaded "print(mat<1,2>(3, 4) * vec<2>(1, 2)); derive();").result =
      .error ⟨.argumentCount "derive" (.exactly 1) 0, 1⟩ :=
    Outcome.failure?_eq_some.mp (by decide +kernel)
  refine ⟨⟨_, failed, inside _ failed⟩, ?_⟩
  have shown :
      ((program .preloaded "print(mat<1,2>(3, 4) * vec<2>(1, 2)); derive();").journal.any fun e =>
        e.values.any fun v => v.type == .matrix) = true := by
    decide +kernel
  obtain ⟨e, member, held⟩ := List.any_eq_true.mp shown
  obtain ⟨v, held, isMatrix⟩ := List.any_eq_true.mp held
  cases v with
  | matrix m =>
      obtain ⟨rows, lines⟩ := whole e member _ held m rfl
      exact ⟨e, member, m, rows, held, lines⟩
  | number | function | callable => cases isMatrix

end PolyCalc
