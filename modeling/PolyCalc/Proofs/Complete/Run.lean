import PolyCalc.Proofs.Complete
import PolyCalc.Proofs.Held
import PolyCalc.Proofs.Operational
import PolyCalc.Proofs.Scan.Spaced

/-!
Internal faults of evaluations.

Two faults are internal: a literal that is no number, and an access out of range.
The first needs a token that the scanner does not make. The second needs a value
that is not complete (`Stops.internal`), and evaluations make none. So an evaluation
of scanned tokens has an internal fault only if a value was incomplete before it
began, and then it is an access out of range (`evaluate_internal`).
-/

namespace PolyCalc

/-- Numbers, lambdas, and the results of operators and calls are complete. A lambda is so
whatever its sums are. -/
theorem inherited_complete : Inherited Value.Complete where
  number _ := trivial
  start _ _ := trivial
  use _ _ := trivial
  add _ _ _ := trivial
  lambda {l} _ := Poly.complete_ofList l.coefficients.toList
  apply := Value.kept_complete.apply
  invoke := Value.kept_complete.invoke

/-! ### Faults that are not internal -/

theorem Traced.unexpected_kind {α : Type} {t : Located} {expected : Expected} {failure : Failure}
    (failed : (Traced.unexpected t expected : Traced α).result = .error failure) :
    failure.kind = .lexical ∨ failure.kind = .grammar := by
  unfold Traced.unexpected at failed
  split at failed
  · cases failed
    exact .inl rfl
  · cases failed
    exact .inr rfl

theorem Env.lookup_kind {env : Env} {name : String} {fault : Fault}
    (failed : env.lookup name = .error fault) : fault.kind = .name := by
  unfold lookup at failed
  split at failed
  · cases failed
  · cases failed
    rfl
  · cases failed
    rfl

theorem Lambda.use_kind {l : Lambda} {name : String} {fault : Fault}
    (failed : l.use name = .error fault) : fault.kind = .capture := by
  unfold use at failed
  split at failed
  · cases failed
  · split at failed
    · cases failed
    · cases failed
      rfl

/-- An internal fault of an operation on values is an access, which a condition that
keeps the operation in range rules out. -/
theorem Operational.internal {α : Type} {x : Except Fault α} {Q : Prop} {fault : Fault}
    (operational : Operational x) (inRange : Q → InRange x) (failed : x = .error fault)
    (internal : fault.kind = .internal) : fault = .outOfRange ∧ ¬ Q := by
  rcases operational fault failed with domain | rfl
  · rw [domain] at internal
    cases internal
  · exact ⟨rfl, fun holds => inRange holds _ failed rfl⟩

/-! ### Internal faults -/

/-- A step has an internal fault only at a literal that is no number, or with a value
that is not complete. -/
theorem Stops.internal {env : Env} {t next : Located} {c : Control} {events : List Event}
    {failure : Failure} (stopped : Stops env t next c events failure)
    (internal : failure.kind = .internal) :
    (∃ m literal, c = .mode m ∧ m.Converts ∧ t.token = .number literal ∧
        Number.read? literal = none) ∨
      failure.fault = .outOfRange ∧ ¬ ∀ v ∈ c.values, v.Complete := by
  cases stopped with
  | unexpected failed | unclosed failed =>
      rcases Traced.unexpected_kind failed with kind | kind <;> rw [kind] at internal <;>
        cases internal
  | malformedNumber converts found unread => exact .inl ⟨_, _, rfl, converts, found, unread⟩
  | redefined | undefined | notCallable | notCaptured => cases internal
  | lookup _ failed =>
      have kind := Env.lookup_kind failed
      rw [Failure.kind, kind] at internal
      cases internal
  | mixedVariables _ failed =>
      have kind := Lambda.use_kind failed
      rw [Failure.kind, kind] at internal
      cases internal
  | multiply failed | add failed =>
      refine .inr ((Operator.apply_operational _ _ _).internal (fun complete => ?_) failed internal)
      obtain ⟨v, rest⟩ := List.forall_mem_cons.mp complete
      obtain ⟨lhs, k⟩ := List.forall_mem_cons.mp rest
      exact Operator.apply_inRange _ lhs v
  | noGenerics failed | genericEnd failed =>
      exact .inr ((Callable.specialize_operational _ _).internal
        (fun _ => Callable.specialize_inRange _ _) failed internal)
  | noArguments failed =>
      refine .inr ((Callable.invoke_operational _ _).internal (fun complete => ?_) failed internal)
      exact Callable.invoke_inRange _ (List.forall_mem_append.mp complete).1
  | lastArgument failed =>
      refine .inr ((Callable.invoke_operational _ _).internal (fun complete => ?_) failed internal)
      obtain ⟨v, rest⟩ := List.forall_mem_cons.mp complete
      obtain ⟨args, k⟩ := List.forall_mem_append.mp rest
      exact Callable.invoke_inRange _
        (List.forall_mem_append.mpr ⟨args, List.forall_mem_singleton.mpr v⟩)
  | factor failed | exponent failed =>
      exact .inr ((Value.asNumber_operational _).internal
        (fun _ => Value.asNumber_inRange _) failed internal)
  | constant failed | linear failed | term _ failed =>
      exact .inr ((Lambda.add_operational _ _ _).internal
        (fun _ => Lambda.add_inRange _ _ _) failed internal)
  | power failed =>
      exact .inr ((powerOf_operational _).internal (fun _ => powerOf_inRange _) failed internal)

/-- An evaluation of tokens whose numbers can be read has an internal fault only if it
began with a value that is not complete. -/
theorem evaluate_internal {scopes : Scopes} {m : Mode} {tokens : List Located} {failure : Failure}
    (literals : ∀ t ∈ tokens, ∀ literal, t.token = .number literal → IsLiteral literal)
    (failed : (evaluate scopes m tokens).result = .error failure)
    (internal : failure.kind = .internal) :
    failure.fault = .outOfRange ∧
      ¬ (scopes.All Value.Complete ∧ ∀ v ∈ m.values, v.Complete) := by
  have readable : ∀ t ∈ tokens, ∀ literal, t.token = .number literal →
      Number.read? literal ≠ none := by
    intro t member literal found unread
    obtain ⟨x, read⟩ := (literals t member literal found).read
    rw [unread] at read
    cases read
  constructor
  · -- Nothing needs to be known of the values here.
    have anything : Inherited fun _ => True :=
      ⟨fun _ => trivial, fun _ _ => trivial, fun _ _ => trivial, fun _ _ _ => trivial,
        fun _ => trivial, fun _ _ _ => trivial, fun _ _ => ⟨trivial, fun _ _ => trivial⟩⟩
    obtain ⟨env, c, events, t, member, next, -, -, stopped⟩ :=
      (evaluate_all anything ⟨fun _ _ _ => trivial, fun _ _ _ _ _ => trivial⟩
        ⟨fun _ _ => trivial, fun _ _ => trivial⟩).2 failure failed
    rcases stopped.internal internal with ⟨-, literal, -, -, found, unread⟩ | ⟨missed, -⟩
    · exact absurd unread (readable t member literal found)
    · exact missed
  · rintro ⟨hscopes, h⟩
    obtain ⟨env, c, events, t, member, next, -, held, stopped⟩ :=
      (evaluate_all inherited_complete hscopes ⟨h, fun _ _ => trivial⟩).2 failure failed
    rcases stopped.internal internal with ⟨-, literal, -, -, found, unread⟩ | ⟨-, incomplete⟩
    · exact readable t member literal found unread
    · exact incomplete held.values

end PolyCalc
