import PolyCalc.Call

/-!
Environments: what each name stands for.

A name is absent, declared without a value, or bound to a value. Names without
a value are the captured names inside the body of a lambda. `Env.get` is the
view of an environment; every operation is described by what it does to it.
-/

namespace PolyCalc

/-- What a name stands for. -/
inductive Binding where
  | absent
  | unbound
  | bound (value : Value Float)
deriving Repr

/-- The names with what they stand for: a value, or `none` for a name without
one. The first entry of a name counts. -/
structure Env where
  entries : List (String × Option (Value Float))
deriving Repr

namespace Env

def empty : Env := ⟨[]⟩

/-- Replaces the entry of a name, or adds one at the end. -/
def put (name : String) (entry : Option (Value Float)) :
    List (String × Option (Value Float)) → List (String × Option (Value Float))
  | [] => [(name, entry)]
  | (other, old) :: rest =>
      if other = name then (name, entry) :: rest else (other, old) :: put name entry rest

/-- What a name stands for. -/
def get (env : Env) (name : String) : Binding :=
  match env.entries.lookup name with
  | none => .absent
  | some none => .unbound
  | some (some v) => .bound v

/-- Whether the name is declared, with a value or without. -/
def contains (env : Env) (name : String) : Bool :=
  match env.get name with
  | .absent => false
  | _ => true

/-- Whether the name is declared without a value. -/
def isUnbound (env : Env) (name : String) : Bool :=
  match env.get name with
  | .unbound => true
  | _ => false

/-- Declares a name without a value. -/
def declare (env : Env) (name : String) : Env := ⟨put name none env.entries⟩

/-- Binds a name to a value. -/
def define (env : Env) (name : String) (value : Value Float) : Env :=
  ⟨put name (some value) env.entries⟩

/-- The value of a name. -/
def lookup (env : Env) (name : String) : Except Fault (Value Float) :=
  match env.get name with
  | .bound v => .ok v
  | .unbound => .error (.unboundName name)
  | .absent => .error (.undefinedName name)

/-! ### The view -/

theorem lookup_put (name other : String) (entry : Option (Value Float))
    (entries : List (String × Option (Value Float))) :
    (put name entry entries).lookup other =
      if other = name then some entry else entries.lookup other := by
  induction entries with
  | nil =>
      by_cases same : other = name
      · simp [put, same]
      · have differ : (other == name) = false := beq_eq_false_iff_ne.mpr same
        simp [put, List.lookup_cons, differ, same]
  | cons head rest ih =>
      obtain ⟨key, old⟩ := head
      by_cases same : other = key
      · subst same
        by_cases found : other = name
        · simp [put, found]
        · simp [put, found]
      · have differ : (other == key) = false := beq_eq_false_iff_ne.mpr same
        by_cases found : key = name
        · subst found
          simp [put, List.lookup_cons, differ, same]
        · simp [put, found, List.lookup_cons, differ, ih]

@[simp] theorem get_define (env : Env) (name other : String) (value : Value Float) :
    (env.define name value).get other =
      if other = name then .bound value else env.get other := by
  unfold get define
  rw [lookup_put]
  by_cases same : other = name <;> simp [same]

@[simp] theorem get_declare (env : Env) (name other : String) :
    (env.declare name).get other = if other = name then .unbound else env.get other := by
  unfold get declare
  rw [lookup_put]
  by_cases same : other = name <;> simp [same]

@[simp] theorem get_empty (name : String) : empty.get name = .absent := rfl

/-! ### What every program starts with -/

/-- The constants with their names. -/
def constants : List (String × Float) := [("e", Native.e), ("pi", Native.pi)]

/-- The constructors. -/
def families : List Family := [.matrix, .vector]

/-- The names every program starts with and their values. -/
def initialBindings : List (String × Value Float) :=
  (Native.output ++ Native.algebra).map (fun op => (op.name, .callable (.native op)))
    ++ families.map (fun f => (f.name, .callable (.constructor (.unbound f))))
    ++ constants.map (fun (name, x) => (name, .number x))

/-- The environment every program starts with. -/
def preloaded : Env :=
  initialBindings.foldl (fun env (name, value) => env.define name value) empty

end Env

end PolyCalc
