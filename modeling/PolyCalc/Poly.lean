import PolyCalc.Fault
import PolyCalc.Scalar
import PolyCalc.Squaring

/-!
Polynomials in one variable, as lists of coefficients.

The coefficient at position `i` belongs to the power `x ^ i`. Operations keep
trailing zeros as they arise, so the length of the list and not the degree
decides what counts against `maxDegree`. Products and the bodies of lambdas
collect their terms with `addAt`, one term after the other, so that a
coefficient is the sum of its terms in the order in which they come.
-/

namespace PolyCalc

/-- Fails for a degree past the limit. -/
def checkDegree (degree : Nat) : Except Fault Unit :=
  if maxDegree < degree then .error (.degreeLimit degree) else .ok ()

/-- Adds `c` to the entry at position `i`. -/
def addAt {α : Type} [Add α] (cs : Array α) (i : Nat) (c : α) : Except Fault (Array α) :=
  if h : i < cs.size then .ok (cs.set i (cs[i] + c)) else .error .outOfRange

/-- A polynomial: the coefficients by ascending power. -/
structure Poly (α : Type) where
  coefficients : List α
deriving BEq, Repr

namespace Poly

variable {α : Type} [Scalar α]

/-- The polynomial with the given coefficients; none at all make it zero. -/
def ofList : List α → Poly α
  | [] => ⟨[0]⟩
  | cs => ⟨cs⟩

/-- The polynomial with the given value everywhere. -/
def constant (c : α) : Poly α := ⟨[c]⟩

/-- The number of coefficients. -/
def size (p : Poly α) : Nat := p.coefficients.length

/-- The highest power with a coefficient other than zero, or 0. -/
def degree [BEq α] (p : Poly α) : Nat :=
  (p.coefficients.reverse.dropWhile (· == 0)).length - 1

/-- The value at `x`, by Horner's rule. -/
def eval (p : Poly α) (x : α) : α :=
  p.coefficients.foldr (fun c value => Scalar.mulAdd value x c) 0

/-! ### Calculus -/

/-- The derivative. That of a constant is zero. -/
def derive (p : Poly α) : Poly α :=
  ofList ((p.coefficients.zipIdx.drop 1).map fun (c, power) => c * power)

/-- The antiderivative that is zero at zero. -/
def integrate (p : Poly α) : Except Fault (Poly α) := do
  checkDegree p.size
  return ⟨0 :: p.coefficients.zipIdx.map fun (c, power) => c / ((power + 1 : Nat) : α)⟩

/-! ### Sums and multiples -/

/-- Combines two lists entry by entry, with zeros where one has ended. -/
def zipLongest (op : α → α → α) : List α → List α → List α
  | [], [] => []
  | a :: as, [] => op a 0 :: zipLongest op as []
  | [], b :: bs => op 0 b :: zipLongest op [] bs
  | a :: as, b :: bs => op a b :: zipLongest op as bs

def add (p q : Poly α) : Poly α := ⟨zipLongest (· + ·) p.coefficients q.coefficients⟩

def sub (p q : Poly α) : Poly α := ⟨zipLongest (· - ·) p.coefficients q.coefficients⟩

/-- Adds a number to the constant term. -/
def addConstant (p : Poly α) (c : α) : Except Fault (Poly α) :=
  match p.coefficients with
  | [] => .error .outOfRange
  | c₀ :: cs => .ok ⟨(c₀ + c) :: cs⟩

/-- Multiplies every coefficient by `factor`. -/
def scale (p : Poly α) (factor : α) : Poly α := ⟨p.coefficients.map (· * factor)⟩

/-! ### Products and powers -/

/-- The products of all pairs of coefficients with their powers, the left
polynomial leading. -/
def productTerms (p q : Poly α) : List (Nat × α) :=
  p.coefficients.zipIdx.flatMap fun (a, i) =>
    q.coefficients.zipIdx.map fun (b, j) => (i + j, a * b)

def mul (p q : Poly α) : Except Fault (Poly α) :=
  match p.size + q.size with
  | top + 2 => do
      checkDegree top
      let cs ← (productTerms p q).foldlM (fun cs (i, c) => addAt cs i c)
        (Array.replicate (top + 1) 0)
      return ⟨cs.toList⟩
  | _ => .error .outOfRange

/-- The `n`-th power. The degree it would have is checked first; a degree past
every count is reported as the largest count. -/
def pow (p : Poly α) (n : Nat) : Except Fault (Poly α) :=
  match p.size with
  | top + 1 => do
      checkDegree (min (top * n) (Nat.pow 2 64 - 1))
      timesPower mul (constant 1) p n
  | 0 => .error .outOfRange

end Poly

end PolyCalc
