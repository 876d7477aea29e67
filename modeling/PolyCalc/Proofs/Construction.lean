import PolyCalc.Proofs.Grid
import PolyCalc.Proofs.Number.Fractions

/-!
Construction in two stages.

A constructor is given its dimensions first and the cells in a second call. Dimensions are
checked when they are given, the number of cells and their types in the call, and a matrix
checks all of this once more when it is made. What the three of them let through is stated
in one place: two positive whole numbers with a product below `2 ^ 64`, and as many numbers
as their product says (`build_matrix_ok_iff`). A vector is built like a matrix with one
column (`build_counted`), and only the report of a wrong number of cells tells them apart
(`build_miscounted`).
-/

namespace PolyCalc

open Number (value?)

/-! ### Dimensions -/

/-- The number stands for a dimension: a positive whole number up to `2 ^ 53 - 1`. -/
structure IsDimension (x : Float) (n : Nat) : Prop where
  positive : 0 < n
  counted : n ≤ 2 ^ 53 - 1
  valued : value? x = some (n : ℚ)

namespace Constructor

theorem dimension_ok_iff {x : Float} {n : Nat} : dimension x = .ok n ↔ IsDimension x n := by
  unfold dimension
  constructor
  · intro ok
    split at ok
    · rename_i found
      cases ok
      obtain ⟨counted, valued⟩ := Number.toCount?_eq_some_iff.mp found
      exact ⟨Nat.succ_pos _, counted, valued⟩
    · cases ok
  · rintro ⟨positive, counted, valued⟩
    obtain ⟨k, rfl⟩ : ∃ k, n = k + 1 := ⟨n - 1, by omega⟩
    rw [Number.toCount?_eq_some_iff.mpr ⟨counted, valued⟩]

theorem bind_matrix (x y : Float) :
    (unbound .matrix).bind [x, y] = dimension x >>= fun rows => dimension y >>= fun columns =>
      if cellLimit ≤ rows * columns then .error (.invalidDimensions (.tooLarge ⟨rows, columns⟩))
      else .ok ⟨.matrix, some ⟨rows, columns⟩⟩ := by
  rw [bind]
  rfl

theorem bind_vector (x : Float) :
    (unbound .vector).bind [x] = dimension x >>= fun rows =>
      if cellLimit ≤ rows * 1 then .error (.invalidDimensions (.tooLarge ⟨rows, 1⟩))
      else .ok ⟨.vector, some ⟨rows, 1⟩⟩ := by
  rw [bind]
  rfl

theorem bind_count {c : Constructor} {generics : List Float}
    (count : generics.length ≠ c.family.dimensionCount) :
    ∃ fault, c.bind generics = .error fault := by
  unfold bind
  rw [if_pos count]
  split
  · exact ⟨_, rfl⟩
  · exact ⟨_, rfl⟩

/-- The first stage leaves a constructor with dimensions. -/
theorem bind_dimensions {c bound : Constructor} {generics : List Float}
    (ok : c.bind generics = .ok bound) : ∃ shape, bound = ⟨c.family, some shape⟩ := by
  unfold bind at ok
  split at ok
  · cases ok
  split at ok
  · cases ok
  obtain ⟨x, -, ok⟩ := bind_ok ok
  obtain ⟨rows, -, ok⟩ := bind_ok ok
  dsimp only at ok
  split at ok
  · obtain ⟨y, -, ok⟩ := bind_ok ok
    obtain ⟨columns, -, ok⟩ := bind_ok ok
    split at ok
    · cases ok
    · cases ok
      exact ⟨_, rfl⟩
  · obtain ⟨columns, -, ok⟩ := bind_ok ok
    split at ok
    · cases ok
    · cases ok
      exact ⟨_, rfl⟩

/-- The first stage takes two dimensions whose product is below the limit. -/
theorem bind_matrix_ok_iff {generics : List Float} {c : Constructor} :
    (unbound .matrix).bind generics = .ok c ↔
      ∃ x y rows columns, generics = [x, y] ∧ IsDimension x rows ∧ IsDimension y columns ∧
        rows * columns < 2 ^ 64 ∧ c = ⟨.matrix, some ⟨rows, columns⟩⟩ := by
  constructor
  · intro ok
    have count : generics.length = 2 := by
      by_contra other
      obtain ⟨fault, failed⟩ := bind_count (c := unbound .matrix) other
      cases failed.symm.trans ok
    obtain ⟨x, y, rfl⟩ := List.length_eq_two.mp count
    rw [bind_matrix] at ok
    obtain ⟨rows, first, ok⟩ := bind_ok ok
    obtain ⟨columns, second, ok⟩ := bind_ok ok
    split at ok
    · cases ok
    · rename_i within
      cases ok
      exact ⟨x, y, rows, columns, rfl, dimension_ok_iff.mp first, dimension_ok_iff.mp second,
        Nat.lt_of_not_le within, rfl⟩
  · rintro ⟨x, y, rows, columns, rfl, first, second, within, rfl⟩
    rw [bind_matrix, dimension_ok_iff.mpr first, dimension_ok_iff.mpr second]
    exact if_neg (Nat.not_le_of_lt within)

/-! ### Cells -/

theorem mapM_asNumber_ok_iff {args : List (Value Float)} {cells : List Float} :
    args.mapM Value.asNumber = .ok cells ↔ args = cells.map .number := by
  constructor
  · intro ok
    induction args generalizing cells with
    | nil => cases ok; rfl
    | cons a args ih =>
        rw [List.mapM_cons] at ok
        obtain ⟨x, number, ok⟩ := bind_ok ok
        obtain ⟨rest, numbers, ok⟩ := bind_ok ok
        cases ok
        cases a with
        | number => cases number; rw [ih numbers]; rfl
        | matrix | function | callable => cases number
  · rintro rfl
    induction cells with
    | nil => rfl
    | cons x cells ih =>
        rw [List.map_cons, List.mapM_cons, ih]
        rfl

/-- Cells that fill a shape make a matrix. -/
theorem ofCells_eq {rows columns : Nat} {cells : List Float} (positive : 0 < rows ∧ 0 < columns)
    (within : rows * columns < 2 ^ 64) (size : cells.length = rows * columns) :
    Mat.ofCells ⟨rows, columns⟩ cells = .ok ⟨⟨rows, columns⟩, cells.toArray⟩ := by
  have notEmpty : ¬(rows = 0 ∨ columns = 0) := by omega
  have notLarge : ¬cellLimit ≤ (⟨rows, columns⟩ : Shape).size := Nat.not_le_of_lt within
  have filled : ¬cells.length ≠ (⟨rows, columns⟩ : Shape).size := not_not_intro size
  rw [Mat.ofCells, if_neg notEmpty, if_neg notLarge, if_neg filled]

/-- The second stage takes a number for each cell. -/
theorem construct_ok_iff (family : Family) {rows columns : Nat} {args : List (Value Float)}
    {v : Value Float} (positive : 0 < rows ∧ 0 < columns) (within : rows * columns < 2 ^ 64) :
    (⟨family, some ⟨rows, columns⟩⟩ : Constructor).construct args = .ok v ↔
      ∃ cells : List Float, args = cells.map .number ∧ cells.length = rows * columns ∧
        v = .matrix ⟨⟨rows, columns⟩, cells.toArray⟩ := by
  constructor
  · intro ok
    simp only [construct] at ok
    split at ok
    · cases ok
    · rename_i count
      obtain ⟨cells, numbers, made⟩ := bind_ok ok
      obtain rfl := mapM_asNumber_ok_iff.mp numbers
      have size : cells.length = rows * columns := by
        rw [List.length_map] at count
        exact not_not.mp count
      rw [ofCells_eq positive within size] at made
      cases made
      exact ⟨cells, rfl, size, rfl⟩
  · rintro ⟨cells, rfl, size, rfl⟩
    have count : ¬(cells.map Value.number).length ≠ (⟨rows, columns⟩ : Shape).size :=
      not_not_intro ((List.length_map _).trans size)
    have numbers : (cells.map Value.number).mapM Value.asNumber = .ok cells :=
      mapM_asNumber_ok_iff.mpr rfl
    simp only [construct, if_neg count, numbers]
    exact congrArg (· >>= fun m => pure (Value.matrix m)) (ofCells_eq positive within size)

end Constructor

/-! ### Both stages -/

/-- What a constructor makes of dimensions and cells. -/
def build (family : Family) (generics : List Float) (args : List (Value Float)) :
    Except Fault Answer := do
  (← (Callable.constructor (.unbound family)).specialize generics).invoke args

theorem build_matrix_ok_iff {generics : List Float} {args : List (Value Float)} {answer : Answer} :
    build .matrix generics args = .ok answer ↔
      ∃ x y rows columns, ∃ cells : List Float, generics = [x, y] ∧ IsDimension x rows ∧
        IsDimension y columns ∧ rows * columns < 2 ^ 64 ∧ args = cells.map .number ∧
        cells.length = rows * columns ∧
        answer = ⟨[], .matrix ⟨⟨rows, columns⟩, cells.toArray⟩⟩ := by
  constructor
  · intro ok
    obtain ⟨_, special, ok⟩ := bind_ok ok
    obtain ⟨c, bound, special⟩ := bind_ok special
    cases special
    obtain ⟨x, y, rows, columns, rfl, first, second, within, rfl⟩ :=
      Constructor.bind_matrix_ok_iff.mp bound
    obtain ⟨v, constructed, ok⟩ := bind_ok ok
    cases ok
    obtain ⟨cells, rfl, size, rfl⟩ :=
      (Constructor.construct_ok_iff _ ⟨first.positive, second.positive⟩ within).mp constructed
    exact ⟨x, y, rows, columns, cells, rfl, first, second, within, rfl, size, rfl⟩
  · rintro ⟨x, y, rows, columns, cells, rfl, first, second, within, rfl, size, rfl⟩
    have bound := Constructor.bind_matrix_ok_iff.mpr
      ⟨x, y, rows, columns, rfl, first, second, within, rfl⟩
    have constructed := (Constructor.construct_ok_iff .matrix
      ⟨first.positive, second.positive⟩ within).mpr ⟨cells, rfl, size, rfl⟩
    rw [build, Callable.specialize, bound]
    exact congrArg (· >>= fun v => pure (Answer.mk [] v)) constructed

/-! ### Vectors -/

/-- The fault without the name of what was called with a wrong number of arguments. -/
def Fault.unnamed : Fault → Fault
  | .argumentCount _ expected found => .argumentCount "" expected found
  | fault => fault

theorem dimension_one : Constructor.dimension 1 = .ok 1 := by
  decide +kernel

/-- With a dimension, both families build the same column. -/
theorem build_column {x : Float} {rows : Nat} (given : IsDimension x rows)
    (args : List (Value Float)) :
    build .vector [x] args =
        Native.silently ((⟨.vector, some ⟨rows, 1⟩⟩ : Constructor).construct args) ∧
      build .matrix [x, 1] args =
        Native.silently ((⟨.matrix, some ⟨rows, 1⟩⟩ : Constructor).construct args) := by
  have counted := given.counted
  have within : ¬cellLimit ≤ rows * 1 := by
    show ¬2 ^ 64 ≤ rows * 1
    omega
  rw [build, build, Callable.specialize, Callable.specialize, Constructor.bind_vector,
    Constructor.bind_matrix, dimension_one, Constructor.dimension_ok_iff.mpr given]
  simp only [bind, Except.bind, if_neg within]
  exact ⟨rfl, rfl⟩

theorem Shape.text_column (rows : Nat) : (⟨rows, 1⟩ : Shape).text = s!"mat<{rows},1>" := by
  have joined : "," ++ (toString 1 ++ ">") = ",1>" := by decide
  calc (⟨rows, 1⟩ : Shape).text
    _ = "mat<" ++ toString rows ++ "," ++ toString 1 ++ ">" := rfl
    _ = "mat<" ++ toString rows ++ ("," ++ (toString 1 ++ ">")) := by
      simp only [String.append_assoc]
    _ = s!"mat<{rows},1>" := by
      rw [joined]
      rfl

/-- The one difference of a vector and a matrix with one column: a wrong number of arguments is
reported with the dimensions as they were given. -/
theorem build_miscounted {x : Float} {rows : Nat} (given : IsDimension x rows)
    {args : List (Value Float)} (miscounted : args.length ≠ rows) :
    build .vector [x] args =
        .error (.argumentCount s!"vec<{rows}>" (.exactly rows) args.length) ∧
      build .matrix [x, 1] args =
        .error (.argumentCount s!"mat<{rows},1>" (.exactly rows) args.length) := by
  have size : (⟨rows, 1⟩ : Shape).size = rows := Nat.mul_one rows
  obtain ⟨vector, matrix⟩ := build_column given args
  rw [vector, matrix, Constructor.construct, Constructor.construct, ← Shape.text_column]
  simp only [size, if_pos miscounted]
  exact ⟨rfl, rfl⟩

/-- There is no other difference, whether a matrix is built or a fault reported. -/
theorem build_counted {x : Float} {args : List (Value Float)}
    (counted : ∀ rows, IsDimension x rows → args.length = rows) :
    build .vector [x] args = build .matrix [x, 1] args := by
  cases given : Constructor.dimension x with
  | error fault =>
      rw [build, build, Callable.specialize, Callable.specialize, Constructor.bind_vector,
        Constructor.bind_matrix, given]
      rfl
  | ok rows =>
      have dimension := Constructor.dimension_ok_iff.mp given
      have right : ¬args.length ≠ (⟨rows, 1⟩ : Shape).size :=
        not_not.mpr ((counted rows dimension).trans (Nat.mul_one rows).symm)
      obtain ⟨vector, matrix⟩ := build_column dimension args
      rw [vector, matrix, Constructor.construct, Constructor.construct]
      simp only [if_neg right]

/-- A vector is a matrix with one column. Only a report of a wrong number of arguments names
it differently. -/
theorem build_vector (x : Float) (args : List (Value Float)) :
    (build .vector [x] args).mapError Fault.unnamed =
      (build .matrix [x, 1] args).mapError Fault.unnamed := by
  by_cases counted : ∀ rows, IsDimension x rows → args.length = rows
  · rw [build_counted counted]
  · push Not at counted
    obtain ⟨rows, given, miscounted⟩ := counted
    obtain ⟨vector, matrix⟩ := build_miscounted given miscounted
    rw [vector, matrix]
    rfl

theorem mapError_ok_iff {α : Type} {f : Fault → Fault} {result : Except Fault α} {a : α} :
    result.mapError f = .ok a ↔ result = .ok a := by
  cases result with
  | error fault =>
      constructor
      · rintro ⟨⟩
      · rintro ⟨⟩
  | ok b => exact Iff.rfl

/-! ### Construction -/

/-- Two dimensions whose product is below `2 ^ 64`, and a number for each cell. -/
structure Fills (generics : List Float) (args : List (Value Float)) (rows columns : Nat) :
    Prop where
  dimensions : ∃ x y, generics = [x, y] ∧ IsDimension x rows ∧ IsDimension y columns
  within : rows * columns < 2 ^ 64
  count : args.length = rows * columns
  numbers : ∀ a ∈ args, ∃ z, a = .number z

theorem exists_numbers {args : List (Value Float)} (all : ∀ a ∈ args, ∃ z, a = .number z) :
    ∃ cells : List Float, args = cells.map .number := by
  induction args with
  | nil => exact ⟨[], rfl⟩
  | cons a args ih =>
      obtain ⟨⟨z, rfl⟩, rest⟩ := List.forall_mem_cons.mp all
      obtain ⟨cells, rfl⟩ := ih rest
      exact ⟨z :: cells, rfl⟩

theorem Fills.build {generics : List Float} {args : List (Value Float)} {rows columns : Nat}
    (fills : Fills generics args rows columns) :
    ∃ cells : List Float, args = cells.map .number ∧ cells.length = rows * columns ∧
      build .matrix generics args = .ok ⟨[], .matrix ⟨⟨rows, columns⟩, cells.toArray⟩⟩ := by
  obtain ⟨⟨x, y, rfl, first, second⟩, within, count, numbers⟩ := fills
  obtain ⟨cells, rfl⟩ := exists_numbers numbers
  rw [List.length_map] at count
  refine ⟨cells, rfl, count, build_matrix_ok_iff.mpr ?_⟩
  exact ⟨x, y, rows, columns, cells, rfl, first, second, within, rfl, count, rfl⟩

/-- Giving a `mat` generic arguments and calling it succeeds if and only if there are two
positive whole numbers for its dimensions, with a product below `2 ^ 64`, and that many
numbers for its cells. The cell of a row and a column is then the argument at its position in
row order, and there are no other cells. A `vec` does the same as a `mat` with one column, and
fails alike but for its name. What has its dimensions takes no others, and what is no
constructor takes none. -/
theorem build_exact :
    (∀ generics args, (∃ answer, build .matrix generics args = .ok answer) ↔
      ∃ rows columns, Fills generics args rows columns) ∧
    (∀ generics args rows columns, Fills generics args rows columns →
      ∃ m, build .matrix generics args = .ok ⟨[], .matrix m⟩ ∧ m.shape = ⟨rows, columns⟩ ∧
        (∀ r < rows, ∀ c < columns,
          ∃ z, args[r * columns + c]? = some (.number z) ∧ m.get? r c = some z) ∧
        ∀ r c, ¬(r < rows ∧ c < columns) → m.get? r c = none) ∧
    (∀ x args, (∀ answer, build .vector [x] args = .ok answer ↔
        build .matrix [x, 1] args = .ok answer) ∧
      (build .vector [x] args).mapError Fault.unnamed =
        (build .matrix [x, 1] args).mapError Fault.unnamed) ∧
    (∀ (c c' : Callable Float) generics again, c.specialize generics = .ok c' →
      ∃ fault, c'.specialize again = .error fault) ∧
    (∀ family shape generics,
      ∃ fault, (Callable.constructor ⟨family, some shape⟩).specialize generics = .error fault) ∧
    (∀ operation generics,
      ∃ fault, (Callable.native operation).specialize generics = .error fault) ∧
    ∀ p generics, ∃ fault, (Callable.polynomial p).specialize generics = .error fault := by
  refine ⟨?_, ?_, ?_, ?_, ?_, ?_, ?_⟩
  · intro generics args
    constructor
    · rintro ⟨answer, ok⟩
      obtain ⟨x, y, rows, columns, cells, rfl, first, second, within, rfl, size, -⟩ :=
        build_matrix_ok_iff.mp ok
      refine ⟨rows, columns, ⟨x, y, rfl, first, second⟩, within, ?_, ?_⟩
      · rw [List.length_map, size]
      · intro a member
        obtain ⟨z, -, rfl⟩ := List.mem_map.mp member
        exact ⟨z, rfl⟩
    · rintro ⟨rows, columns, fills⟩
      obtain ⟨cells, -, -, built⟩ := fills.build
      exact ⟨_, built⟩
  · intro generics args rows columns fills
    obtain ⟨cells, rfl, size, built⟩ := fills.build
    refine ⟨_, built, rfl, ?_, fun r c outside => Mat.get?_outside outside⟩
    intro r row c column
    have inside : r * columns + c < cells.length := size ▸ Mat.position_lt row column
    refine ⟨cells[r * columns + c], ?_, ?_⟩
    · rw [List.getElem?_map, List.getElem?_eq_getElem inside, Option.map_some]
    · rw [Mat.get?, if_pos ⟨row, column⟩]
      show cells.toArray[r * columns + c]? = some cells[r * columns + c]
      rw [List.getElem?_toArray, List.getElem?_eq_getElem inside]
  · intro x args
    have same := build_vector x args
    refine ⟨fun answer => ?_, same⟩
    rw [← mapError_ok_iff, same, mapError_ok_iff]
  · intro c c' generics again special
    cases c with
    | native | polynomial => cases special
    | constructor k =>
        obtain ⟨bound, dimensions, special⟩ := bind_ok special
        cases special
        obtain ⟨shape, rfl⟩ := Constructor.bind_dimensions dimensions
        exact ⟨_, rfl⟩
  · exact fun family shape generics => ⟨_, rfl⟩
  · exact fun operation generics => ⟨_, rfl⟩
  · exact fun p generics => ⟨_, rfl⟩

/-- A matrix of two rows and three columns, and a vector that has both its numbers. -/
theorem build_exact_cells :
    (∃ m, build .matrix [2, 3] ([1, 2, 3, 4, 5, 6].map .number) = .ok ⟨[], .matrix m⟩ ∧
      m.shape = ⟨2, 3⟩ ∧ m.get? 1 0 = some 4 ∧ m.get? 0 3 = none) ∧
    ∃ answer, build .vector [2] ([1, 2].map .number) = .ok answer := by
  have isDimension {x : Float} {n : Nat} (positive : 0 < n) (count : Number.toCount? x = some n) :
      IsDimension x n := by
    obtain ⟨counted, valued⟩ := Number.toCount?_eq_some_iff.mp count
    exact ⟨positive, counted, valued⟩
  have one : IsDimension 1 1 := isDimension (by decide) (by decide +kernel)
  have two : IsDimension 2 2 := isDimension (by decide) (by decide +kernel)
  have three : IsDimension 3 3 := isDimension (by decide) (by decide +kernel)
  obtain ⟨succeeds, filled, vector, -⟩ := build_exact
  constructor
  · obtain ⟨m, built, shape, cells, outside⟩ := filled [2, 3] ([1, 2, 3, 4, 5, 6].map .number) 2 3
      ⟨⟨2, 3, rfl, two, three⟩, by decide, rfl, by simp⟩
    obtain ⟨z, argument, cell⟩ := cells 1 (by decide) 0 (by decide)
    cases argument
    exact ⟨m, built, shape, cell, outside 0 3 (by decide)⟩
  · obtain ⟨answer, built⟩ := (succeeds [2, 1] ([1, 2].map .number)).mpr
      ⟨2, 1, ⟨2, 1, rfl, two, one⟩, by decide, rfl, by simp⟩
    exact ⟨answer, ((vector 2 ([1, 2].map .number)).1 answer).mpr built⟩

end PolyCalc
