import Mathlib.Algebra.Group.End
import PolyCalc.Proofs.Layout
import PolyCalc.Proofs.Scan.Renamed

/-!
Programs with other names.

A `Renaming` permutes the names that programs may choose; the names every
program starts with stay. It gives the text of a program other names, and the
evaluation of the new text is that of the old one with the names exchanged
(`program_rename`): nothing is printed differently, no failure comes or goes, and
the polynomial of a lambda does not depend on what its parameters are called.
-/

namespace PolyCalc

/-! ### Renamings -/

theorem isName_iff {s : String} :
    IsName s ↔ s ≠ "var" ∧ s.toList.head?.any Char.isAlpha = true ∧
      s.toList.tail.all continuesName = true := by
  unfold IsName
  cases s.toList <;> simp

instance : DecidablePred IsName := fun _ => decidable_of_iff _ isName_iff.symm

/-- A permutation of names that keeps the names every program starts with. -/
structure Renaming where
  perm : Equiv.Perm { name : String // IsName name }
  builtin : ∀ name, Env.preloaded.contains name.1 = true → perm name = name

namespace Renaming

variable (r : Renaming)

/-- Only names get other names. -/
def name : Equiv.Perm String := Equiv.Perm.ofSubtype r.perm

/-- Gives the names other names, keeps the lines and forgets the columns. -/
def relabel : Relabel where
  name := r.name
  name_injective same := r.name.injective same
  offset := fun _ => 0
  line := id
  column := fun _ => 0

theorem keepsNames : r.relabel.KeepsNames := by
  intro name isName
  exact (Equiv.Perm.ofSubtype_apply_mem_iff_mem r.perm name).mpr isName

/-- A name that every program starts with stays. -/
theorem name_builtin {name : String} (builtin : Env.preloaded.contains name = true) :
    r.name name = name := by
  by_cases isName : IsName name
  · rw [Renaming.name, Equiv.Perm.ofSubtype_apply_of_mem _ isName, r.builtin ⟨name, isName⟩ builtin]
  · exact Equiv.Perm.ofSubtype_apply_of_not_mem _ isName

/-- Names that a program may choose can be exchanged. -/
def swap (a b : { name : String // IsName name }) (freeA : Env.preloaded.contains a.1 = false)
    (freeB : Env.preloaded.contains b.1 = false) : Renaming where
  perm := Equiv.swap a b
  builtin := by
    intro name builtin
    refine Equiv.swap_apply_of_ne_of_ne ?_ ?_
    · rintro rfl
      rw [builtin] at freeA
      cases freeA
    · rintro rfl
      rw [builtin] at freeB
      cases freeB

end Renaming

/-! ### Environments -/

theorem Env.contains_of_mem {env : Env} {entry : String × Option (Value Float)}
    (member : entry ∈ env.entries) : env.contains entry.1 = true := by
  have found : (env.entries.lookup entry.1).isSome = true :=
    List.lookup_isSome_iff.mpr ⟨entry, member, beq_self_eq_true _⟩
  unfold contains get
  cases same : env.entries.lookup entry.1 with
  | none => rw [same] at found; cases found
  | some v => cases v <;> rfl

/-- The environment every program starts with stays as it is. -/
theorem Renaming.env_preloaded (r : Renaming) : r.relabel.env .preloaded = .preloaded := by
  have fixed : Env.preloaded.entries.map (fun entry => (r.relabel.name entry.1, entry.2)) =
      Env.preloaded.entries := by
    refine (List.map_congr_left fun entry member => ?_).trans (List.map_id _)
    exact congrArg (·, entry.2) (r.name_builtin (Env.contains_of_mem member))
  exact congrArg Env.mk fixed

/-! ### Lambdas -/

/-- The lambdas that are built, in order, with their captured names. -/
def builtLambdas (journal : List Event) : List (List String × Poly Float) :=
  journal.filterMap fun
    | .built captures _ p => some (captures, p)
    | _ => none

theorem builtLambdas_effects (events : List Event) :
    builtLambdas (effects events) = builtLambdas events := by
  induction events with
  | nil => rfl
  | cons e events ih =>
      cases e with
      | built captures line p => exact congrArg ((captures, p) :: ·) ih
      | _ => exact ih

theorem Relabel.builtLambdas_event (r : Relabel) (events : List Event) :
    builtLambdas (events.map r.event) =
      (builtLambdas events).map fun l => (l.1.map r.name, l.2) := by
  induction events with
  | nil => rfl
  | cons e events ih =>
      cases e with
      | built captures line p => exact congrArg ((captures.map r.name, p) :: ·) ih
      | _ => exact ih

/-! ### Programs -/

/-- A failure without the column of a stray character. -/
def Failure.withoutColumn (f : Failure) : Failure := ⟨f.fault.withoutColumn, f.line⟩

/-- Keeps names and lines. -/
def Relabel.keepLines : Relabel := move (fun _ => 0) id fun _ => 0

theorem Relabel.failure_keepLines : keepLines.failure = Failure.withoutColumn :=
  funext fun f => congrArg (Failure.mk · f.line) (fault_move_zero ..)

/-- The new text has the new tokens, columns aside. -/
theorem Renaming.tokens_text (r : Renaming) (source : String) :
    (scan (r.relabel.text source)).map Relabel.keepLines.located =
      (scan source).map r.relabel.located := by
  have placed := congrArg (List.map fun t => (⟨t.1, ⟨0, t.2, 0⟩⟩ : Located))
    (Relabel.scan_text r.keepsNames source)
  have kept (t : Located) : Relabel.keepLines.located t = ⟨t.token, ⟨0, t.line, 0⟩⟩ :=
    congrArg (Located.mk · _) (Relabel.token_move ..)
  rw [List.map_map, List.map_map] at placed
  rw [funext kept]
  exact placed

/-- The evaluation of a program with other names is that of the program: it leaves
the environment with these names, prints the same values and ends in the same
way, on the same line and with the same fault about these names, columns aside.
Its lambdas have other parameters and the same polynomials. -/
theorem program_rename (r : Renaming) (source : String) :
    (program .preloaded (r.relabel.text source)).env =
        r.relabel.env (program .preloaded source).env ∧
      (program .preloaded (r.relabel.text source)).printed = (program .preloaded source).printed ∧
      (program .preloaded (r.relabel.text source)).result.mapError Failure.withoutColumn =
        (program .preloaded source).result.mapError r.relabel.failure ∧
      builtLambdas (program .preloaded (r.relabel.text source)).journal =
        (builtLambdas (program .preloaded source).journal).map fun l => (l.1.map r.name, l.2) := by
  have envs : Relabel.keepLines.env .preloaded = r.relabel.env .preloaded := by
    rw [r.env_preloaded]
    exact Relabel.env_move ..
  have reports := Relabel.program_congr envs (r.tokens_text source)
  refine ⟨?_, congrArg Report.printed reports, ?_, ?_⟩
  · have environments := congrArg Report.env reports
    exact (Relabel.env_move ..).symm.trans environments
  · rw [← Relabel.failure_keepLines]
    exact congrArg Report.result reports
  · have effects := congrArg builtLambdas (Relabel.effects_congr envs (r.tokens_text source))
    rw [Relabel.builtLambdas_event, Relabel.builtLambdas_event, builtLambdas_effects,
      builtLambdas_effects] at effects
    have kept : (fun l : List String × Poly Float => (l.1.map Relabel.keepLines.name, l.2)) = id :=
      funext fun l => congrArg (·, l.2) (List.map_id l.1)
    rw [kept, List.map_id] at effects
    exact effects

/-- The parameter of a lambda and the variable around it trade their names. -/
theorem program_rename_swap :
    ∃ r : Renaming,
      r.relabel.text "var x := 2; var f := [y] -> x * y^(2); print(f(x)); y;" =
        "var y := 2; var f := [x] -> y * x^(2); print(f(y)); x;" ∧
      (program .preloaded "var y := 2; var f := [x] -> y * x^(2); print(f(y)); x;").printed =
        (program .preloaded "var x := 2; var f := [y] -> x * y^(2); print(f(x)); y;").printed := by
  let r := Renaming.swap ⟨"x", by decide⟩ ⟨"y", by decide⟩ (by decide +kernel) (by decide +kernel)
  have text : r.relabel.text "var x := 2; var f := [y] -> x * y^(2); print(f(x)); y;" =
      "var y := 2; var f := [x] -> y * x^(2); print(f(y)); x;" := by
    decide +kernel
  refine ⟨r, text, ?_⟩
  rw [← text]
  exact (program_rename r _).2.1

end PolyCalc
