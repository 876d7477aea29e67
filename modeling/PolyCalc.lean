import PolyCalc.Number.Exact
import PolyCalc.Number.Count
import PolyCalc.Number.Decimal
import PolyCalc.Number.Literal
import PolyCalc.Operator
import PolyCalc.Token
import PolyCalc.Arity
import PolyCalc.Fault
import PolyCalc.Scalar
import PolyCalc.Squaring
import PolyCalc.Poly
import PolyCalc.Poly.Text
import PolyCalc.Mat
import PolyCalc.Mat.Text
import PolyCalc.Value
import PolyCalc.Operator.Apply
import PolyCalc.Call
import PolyCalc.Scanner
import PolyCalc.Env
import PolyCalc.Journal
import PolyCalc.Eval.Pending
import PolyCalc.Eval.Step
import PolyCalc.Eval.Run
import PolyCalc.Log.Unprintable
import PolyCalc.Log
import PolyCalc.Console
import PolyCalc.CommandLine
import PolyCalc.Main
import PolyCalc.Proofs.Effects
import PolyCalc.Proofs.Transition
import PolyCalc.Proofs.Fallible
import PolyCalc.Proofs.Operational
import PolyCalc.Proofs.WellFormed
import PolyCalc.Proofs.WellFormed.Run
import PolyCalc.Proofs.Scan
import PolyCalc.Proofs.Scan.Spaced
import PolyCalc.Proofs.Grammar
import PolyCalc.Proofs.Nesting
import PolyCalc.Proofs.Relabel
import PolyCalc.Proofs.Incremental
import PolyCalc.Proofs.Tree
import PolyCalc.Proofs.Tree.Steps
import PolyCalc.Proofs.Tree.Run
import PolyCalc.Proofs.Layout
import PolyCalc.Proofs.Reporting
import PolyCalc.Proofs.Scan.Munch
import PolyCalc.Proofs.Scan.Renamed
import PolyCalc.Proofs.Renaming
import PolyCalc.Proofs.Bindings
import PolyCalc.Proofs.Declarations
import PolyCalc.Proofs.Frame
import PolyCalc.Proofs.Scan.Places
import PolyCalc.Proofs.Scan.Longest
import PolyCalc.Proofs.Scan.Tiling
import PolyCalc.Proofs.Complete
import PolyCalc.Proofs.Complete.Run
import PolyCalc.Proofs.OnDemand
import PolyCalc.Proofs.Strays
import PolyCalc.Proofs.Scan.Slices
import PolyCalc.Proofs.Accesses
import PolyCalc.Proofs.Bodies
import PolyCalc.Proofs.Captures
import PolyCalc.Proofs.Collect
import PolyCalc.Proofs.Squaring
import PolyCalc.Proofs.Ring
import PolyCalc.Proofs.Pointwise
import PolyCalc.Proofs.Powers
import PolyCalc.Proofs.Calculus
import PolyCalc.Proofs.Lambda.Terms
import PolyCalc.Proofs.Lambda.Steps
import PolyCalc.Proofs.Lambda.Run
import PolyCalc.Proofs.Grid
import PolyCalc.Proofs.Convolution
import PolyCalc.Proofs.Matrices
import PolyCalc.Proofs.Number.Parts
import PolyCalc.Proofs.Number.Value
import PolyCalc.Proofs.Number.Rounding
import PolyCalc.Proofs.Number.Operations
import PolyCalc.Proofs.Factorial
import PolyCalc.Proofs.Construction
import PolyCalc.Proofs.Degrees
import PolyCalc.Proofs.Number.Texts
import PolyCalc.Proofs.Alignment
import PolyCalc.Proofs.Canonical
import PolyCalc.Proofs.Descent.Rules
import PolyCalc.Proofs.Number.Counts
import PolyCalc.Proofs.Reciprocal
import PolyCalc.Proofs.Descent.Frames
import PolyCalc.Proofs.Descent.Run
import PolyCalc.Proofs.Descent.Progress
