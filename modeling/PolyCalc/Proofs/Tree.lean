import PolyCalc.Proofs.Scan.Spaced
import PolyCalc.Eval.Run

/-!
Programs as trees.

Here a program without lambdas is a tree. It is printed with spaces between its
tokens and with parentheses only where the tree would be read as another one
without them, and it is evaluated by recursion: operands before their operator,
the callee and its generic arguments before the arguments of a call, and no
further than the first fault.
-/

namespace PolyCalc

/-! ### Trees -/

/-- A text that is scanned as a name. -/
structure Name where
  text : String
  isName : IsName text

/-- A text that is scanned as a number. -/
structure Literal where
  text : String
  isLiteral : IsLiteral text

/-- A literal, with a minus sign or without. -/
structure Signed where
  negative : Bool
  literal : Literal

/-- Expressions without lambdas. A call may have generic arguments, even an empty
list of them. -/
inductive Expr where
  | number (n : Signed)
  | name (n : Name)
  | binary (op : Operator) (lhs rhs : Expr)
  | call (f : Name) (generics : Option (List Signed)) (args : List Expr)
  | assign (target : Name) (value : Expr)

/-- Declarations, and expressions whose value is dropped. -/
inductive Statement where
  | declare (name : Name) (value : Expr)
  | bare (e : Expr)

/-- Induction on trees, with the arguments of a call as members of their list. -/
@[elab_as_elim]
theorem Expr.inductionOn {motive : Expr → Prop} (e : Expr) (number : ∀ n, motive (.number n))
    (name : ∀ n, motive (.name n))
    (binary : ∀ op lhs rhs, motive lhs → motive rhs → motive (.binary op lhs rhs))
    (call : ∀ f generics args, (∀ a ∈ args, motive a) → motive (.call f generics args))
    (assign : ∀ target value, motive value → motive (.assign target value)) : motive e := by
  refine @Expr.rec motive (∀ a ∈ ·, motive a) number name binary call assign ?none ?more e
  case none => exact fun _ member => nomatch member
  case more => exact fun a args first rest => List.forall_mem_cons.mpr ⟨first, rest⟩

/-! ### Printing -/

/-- Sums are looser than products. -/
def Operator.rank : Operator → Nat
  | add | subtract => 1
  | multiply | divide | modulo => 2

def Operator.token : Operator → Token
  | add => .plus
  | subtract => .minus
  | multiply => .star
  | divide => .slash
  | modulo => .percent

/-- Reassignments are the loosest, and single operands are never split. -/
def Expr.rank : Expr → Nat
  | assign .. => 0
  | binary op .. => op.rank
  | number _ | name _ | call .. => 3

/-- The tokens, in parentheses if need be. -/
def enclosed (needed : Bool) (ts : List Token) : List Token :=
  if needed then .leftParen :: ts ++ [.rightParen] else ts

/-- The items with commas between them. -/
def commaSeparated (items : List (List Token)) : List Token := [Token.comma].intercalate items

def Signed.tokens (n : Signed) : List Token :=
  if n.negative then [.minus, .number n.literal.text] else [.number n.literal.text]

/-- No generic arguments are not written, but an empty list of them is. -/
def genericTokens : Option (List Signed) → List Token
  | none => []
  | some generics => .genericBegin :: commaSeparated (generics.map Signed.tokens) ++ [.genericEnd]

mutual

/-- An operand of its operator needs parentheses if it is looser; to the right,
also if it is as loose, since operators of one rank go from left to right. -/
def Expr.tokens : Expr → List Token
  | .number n => n.tokens
  | .name n => [.identifier n.text]
  | .binary op lhs rhs =>
      enclosed (lhs.rank < op.rank) lhs.tokens ++ op.token ::
        enclosed (rhs.rank ≤ op.rank) rhs.tokens
  | .call f generics args =>
      .identifier f.text :: genericTokens generics ++
        .leftParen :: commaSeparated (Expr.tokensAll args) ++ [.rightParen]
  | .assign target value => .identifier target.text :: .assign :: value.tokens

def Expr.tokensAll : List Expr → List (List Token)
  | [] => []
  | e :: es => e.tokens :: Expr.tokensAll es

end

/-- Every statement ends with a terminator. -/
def Statement.tokens : Statement → List Token
  | .declare name value => .var :: .identifier name.text :: .assign :: value.tokens ++ [.terminator]
  | .bare e => e.tokens ++ [.terminator]

/-- The text of a program. -/
def programText (statements : List Statement) : String :=
  spaced (statements.flatMap Statement.tokens)

/-! ### Evaluation -/

/-- The environment, and what was printed so far. -/
structure World where
  env : Env
  printed : List (Value Float)

/-- Executions in a world. A fault ends them and leaves the world as it is. -/
abbrev Exec := ExceptT Fault (StateM World)

namespace Exec

/-- The environment at this point. -/
def environment : Exec Env := World.env <$> get

/-- An operation on values, with its fault if it has one. -/
def attempt {α : Type} (x : Except Fault α) : Exec α := ExceptT.mk (pure x)

/-- Binds a name, or binds it anew. -/
def define (name : String) (v : Value Float) : Exec Unit :=
  modify fun w => { w with env := w.env.define name v }

/-- Prints the values in their order. -/
def print (values : List (Value Float)) : Exec Unit :=
  modify fun w => { w with printed := w.printed ++ values }

def lookup (name : String) : Exec (Value Float) := do
  let env ← environment
  attempt (env.lookup name)

/-- What a name calls. -/
def callee (name : String) : Exec (Callable Float) := do
  match (← lookup name).asCallable? with
  | some c => return c
  | none => throw (.notCallable name)

/-- A reassigned name is known. -/
def checkKnown (name : String) : Exec Unit := do
  let env ← environment
  if env.contains name then return else throw (.undefinedName name)

/-- A declared name is new. -/
def checkNew (name : String) : Exec Unit := do
  let env ← environment
  if env.contains name then throw (.redefinedName name) else return

/-- Gives a callee its generic arguments, if there are any. -/
def specialize (c : Callable Float) : Option (List Float) → Exec (Callable Float)
  | none => return c
  | some generics => attempt (c.specialize generics)

/-- Calls, and prints what the answer prints. -/
def invoke (c : Callable Float) (args : List (Value Float)) : Exec (Value Float) := do
  let answer ← attempt (c.invoke args)
  print answer.printed
  return answer.value

end Exec

/-- The number that a literal stands for. -/
def Literal.value (l : Literal) : Float :=
  (Number.read? l.text).get (Option.isSome_iff_exists.mpr l.isLiteral.read)

def Signed.value (n : Signed) : Float := if n.negative then -n.literal.value else n.literal.value

open Exec in
mutual

/-- The value of a tree. Operands are evaluated from left to right, and a reassigned
name is checked before its value is evaluated. -/
def Expr.eval : Expr → Exec (Value Float)
  | .number n => return .number n.value
  | .name n => lookup n.text
  | .binary op lhs rhs => do
      let a ← lhs.eval
      let b ← rhs.eval
      attempt (op.apply a b)
  | .call f generics args => do
      let c ← callee f.text
      let c ← specialize c (generics.map fun ns => ns.map Signed.value)
      let values ← Expr.evalAll args
      invoke c values
  | .assign target value => do
      checkKnown target.text
      let v ← value.eval
      define target.text v
      return v

def Expr.evalAll : List Expr → Exec (List (Value Float))
  | [] => return []
  | e :: es => do
      let v ← e.eval
      let values ← Expr.evalAll es
      return v :: values

end

/-- A declared name is checked before its value is evaluated, and bound after that. -/
def Statement.eval : Statement → Exec Unit
  | .declare name value => do
      Exec.checkNew name.text
      let v ← value.eval
      Exec.define name.text v
  | .bare e => do
      let _ ← e.eval
      return

/-- Evaluates the statements in order. -/
def evalProgram (statements : List Statement) : Exec Unit := statements.forM Statement.eval

/-! ### Printed texts are read as they were written -/

theorem Expr.tokensAll_eq (es : List Expr) : Expr.tokensAll es = es.map Expr.tokens := by
  induction es with
  | nil => rfl
  | cons e es ih => rw [Expr.tokensAll, ih, List.map_cons]

/-- What holds of commas and of the tokens of all items holds of all tokens. -/
theorem forall_mem_commaSeparated {P : Token → Prop} (comma : P .comma)
    {items : List (List Token)} (each : ∀ item ∈ items, ∀ t ∈ item, P t) :
    ∀ t ∈ commaSeparated items, P t := by
  unfold commaSeparated
  induction items with
  | nil => simp
  | cons item items ih =>
      obtain ⟨first, rest⟩ := List.forall_mem_cons.mp each
      cases items with
      | nil => simpa using first
      | cons next items =>
          rw [List.intercalate_cons_cons]
          simp only [List.append_assoc, List.forall_mem_append, List.forall_mem_singleton]
          exact ⟨first, comma, ih rest⟩

theorem forall_mem_enclosed {P : Token → Prop} (left : P .leftParen) (right : P .rightParen)
    (needed : Bool) {ts : List Token} (each : ∀ t ∈ ts, P t) : ∀ t ∈ enclosed needed ts, P t := by
  cases needed with
  | false => exact each
  | true =>
      simp only [enclosed, if_true, List.cons_append, List.forall_mem_cons, List.forall_mem_append,
        List.not_mem_nil, false_implies, implies_true, and_true]
      exact ⟨left, each, right⟩

theorem Operator.token_legible (op : Operator) : op.token.Legible := by
  cases op <;> trivial

theorem Signed.legible (n : Signed) : ∀ t ∈ n.tokens, t.Legible := by
  unfold Signed.tokens
  split <;> simp [Token.Legible, n.literal.isLiteral]

theorem genericTokens_legible (generics : Option (List Signed)) :
    ∀ t ∈ genericTokens generics, t.Legible := by
  cases generics with
  | none => simp [genericTokens]
  | some ns =>
      have each : ∀ item ∈ ns.map Signed.tokens, ∀ t ∈ item, t.Legible := by
        simp only [List.forall_mem_map]
        exact fun n _ => n.legible
      have inside := forall_mem_commaSeparated (P := Token.Legible) trivial each
      simp only [genericTokens, List.cons_append, List.forall_mem_cons, List.forall_mem_append]
      exact ⟨trivial, inside, trivial, by simp⟩

/-- Every token of a tree is one that is scanned as itself. -/
theorem Expr.legible (e : Expr) : ∀ t ∈ e.tokens, t.Legible := by
  induction e using Expr.inductionOn with
  | number n => exact n.legible
  | name n =>
      rw [Expr.tokens, List.forall_mem_singleton]
      exact n.isName
  | binary op lhs rhs left right =>
      rw [Expr.tokens, List.forall_mem_append, List.forall_mem_cons]
      exact ⟨forall_mem_enclosed trivial trivial _ left, op.token_legible,
        forall_mem_enclosed trivial trivial _ right⟩
  | call f generics args each =>
      have inside : ∀ t ∈ commaSeparated (Expr.tokensAll args), t.Legible := by
        refine forall_mem_commaSeparated trivial ?_
        rw [Expr.tokensAll_eq, List.forall_mem_map]
        exact each
      simp only [Expr.tokens, List.cons_append, List.append_assoc, List.forall_mem_cons,
        List.forall_mem_append]
      exact ⟨f.isName, genericTokens_legible generics, trivial, inside, trivial, by simp⟩
  | assign target value ih =>
      rw [Expr.tokens, List.forall_mem_cons, List.forall_mem_cons]
      exact ⟨target.isName, trivial, ih⟩

theorem Statement.legible (s : Statement) : ∀ t ∈ s.tokens, t.Legible := by
  cases s with
  | declare name value =>
      simp only [Statement.tokens, List.cons_append, List.forall_mem_cons, List.forall_mem_append]
      exact ⟨trivial, name.isName, trivial, value.legible, trivial, by simp⟩
  | bare e =>
      rw [Statement.tokens, List.forall_mem_append, List.forall_mem_singleton]
      exact ⟨e.legible, trivial⟩

/-- The text of a program is scanned as the tokens it is written with. -/
theorem scan_programText (statements : List Statement) :
    (scan (programText statements)).map Located.token =
      statements.flatMap Statement.tokens ++ [.endOfFile] := by
  refine scan_spaced fun t member => ?_
  obtain ⟨s, -, inside⟩ := List.mem_flatMap.mp member
  exact (s.legible t inside).reads

end PolyCalc
