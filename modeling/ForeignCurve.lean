import ForeignCurve.Arena.Cell
import ForeignCurve.Arena.Register
import ForeignCurve.Builder
import ForeignCurve.Chip
import ForeignCurve.Circuit.Basic
import ForeignCurve.Circuit.Expr
import ForeignCurve.Component
import ForeignCurve.Constraint.Arith
import ForeignCurve.Constraint.ArithM
import ForeignCurve.Constraint.Assertion
import ForeignCurve.Constraint.Calls
import ForeignCurve.Constraint.Emitter
import ForeignCurve.Constraint.Evaluation
import ForeignCurve.Constraint.Graph
import ForeignCurve.Constraint.Script
import ForeignCurve.Curve.Params
import ForeignCurve.Curve.Point
import ForeignCurve.Failure
import ForeignCurve.Field.Params
import ForeignCurve.Gadget.Field
import ForeignCurve.Gadget.Limb
import ForeignCurve.Gadget.Point
import ForeignCurve.Gadget.ScalarMul
import ForeignCurve.Instruction.Basic
import ForeignCurve.Instruction.Emission
import ForeignCurve.Instruction.Identity
import ForeignCurve.Instruction.LimbSum
import ForeignCurve.Instruction.Plan
import ForeignCurve.Layout
import ForeignCurve.Limbs
import ForeignCurve.Manifest
import ForeignCurve.Native
import ForeignCurve.Poly
import ForeignCurve.Proofs.Coefficients
import ForeignCurve.Proofs.Field.Headroom
import ForeignCurve.Proofs.Limbs
import ForeignCurve.Recording
import ForeignCurve.Table
import ForeignCurve.Trace
import ForeignCurve.Proofs.Field.Quotient
import ForeignCurve.Proofs.Field.Identity
import ForeignCurve.Proofs.Constraint.Hom
import ForeignCurve.Proofs.Constraint.Store
import ForeignCurve.Proofs.Constraint.Graph
import ForeignCurve.Proofs.Constraint.Emitter
import ForeignCurve.Proofs.Constraint.Valuation
import ForeignCurve.Proofs.Constraint.Calls
import ForeignCurve.Proofs.Constraint.Script
import ForeignCurve.Proofs.Instruction.Emission
import ForeignCurve.Proofs.Circuit.Emission
import ForeignCurve.Proofs.Circuit.Acceptance
import ForeignCurve.Proofs.Script
import ForeignCurve.Proofs.Trace
import ForeignCurve.Proofs.Instruction.Plan
import ForeignCurve.Proofs.Run
import ForeignCurve.Proofs.Builder
import ForeignCurve.Proofs.Scenario
import ForeignCurve.Proofs.Field.Power
import ForeignCurve.Proofs.Instruction.Holds
import ForeignCurve.Proofs.Instruction.Exactness
import ForeignCurve.Proofs.Gadget.Register
import ForeignCurve.Proofs.Gadget.Field
import ForeignCurve.Proofs.Instruction.Hint
import ForeignCurve.Proofs.Instruction.LimbSum
import ForeignCurve.Proofs.Instruction.Digits
import ForeignCurve.Proofs.Instruction.Written
import ForeignCurve.Proofs.WitnessPass
import ForeignCurve.Proofs.Gadget.Limb
import ForeignCurve.Proofs.Gadget.Scalar
import ForeignCurve.Proofs.Curve.Formulas
import ForeignCurve.Proofs.Gadget.Point
import ForeignCurve.Proofs.Gadget.CompleteSum
import ForeignCurve.Proofs.Curve.Group
import ForeignCurve.Proofs.Curve.Elliptic
import ForeignCurve.Proofs.Curve.PrimeOrder
import ForeignCurve.Proofs.Gadget.ScalarMul
import ForeignCurve.Proofs.Gadget.Records
import ForeignCurve.Proofs.Gadget.Input
import ForeignCurve.Proofs.Component
import ForeignCurve.Proofs.Program
import ForeignCurve.Proofs.CompleteAddition
import ForeignCurve.Proofs.ScalarMultiplication
import ForeignCurve.Proofs.Instruction.Faults
import ForeignCurve.Proofs.Width.Pass
import ForeignCurve.Proofs.Width.Report
import ForeignCurve.Proofs.Gadget.Logic
import ForeignCurve.Proofs.Instruction.Footprint
import ForeignCurve.Proofs.Circuit.Rows
import ForeignCurve.Proofs.Instruction.Operands
import ForeignCurve.Proofs.Gadget.Block
import ForeignCurve.Proofs.Gadget.Carrier
import ForeignCurve.Proofs.Ownership
import ForeignCurve.Proofs.Recording
import ForeignCurve.Proofs.Gadget.Primitive
import ForeignCurve.Proofs.Gadget.Report
import ForeignCurve.Proofs.Relocation
import ForeignCurve.Proofs.Sizing
import ForeignCurve.Proofs.Gadget.Returns
import ForeignCurve.Proofs.Checks
import ForeignCurve.Proofs.Circuit.Cells
import ForeignCurve.Proofs.Allocation
import ForeignCurve.Proofs.Instruction.Safety
import ForeignCurve.Proofs.Safety
import ForeignCurve.Proofs.Curve.Reflection
import ForeignCurve.Proofs.Gadget.Fold
import ForeignCurve.Proofs.Twins
import ForeignCurve.Proofs.Agreement
import ForeignCurve.Proofs.FoldSymmetry
import ForeignCurve.Proofs.Table
import ForeignCurve.Proofs.Circuit.Checker
import ForeignCurve.Proofs.ScalarFold
import ForeignCurve.Proofs.Curve.Order
import ForeignCurve.Proofs.Recoding
import ForeignCurve.Proofs.Gadget.Trail
import ForeignCurve.Proofs.Schedule
import ForeignCurve.Proofs.Gadget.Attempt
import ForeignCurve.Proofs.Inlet
import ForeignCurve.Proofs.Division
import ForeignCurve.Proofs.IncompleteAddition
import ForeignCurve.Proofs.Instruction.Outputs
import ForeignCurve.Proofs.BitDecomposition
import ForeignCurve.Proofs.LimbAddition
import ForeignCurve.Proofs.Membership
import ForeignCurve.Proofs.FieldOperations
import ForeignCurve.Proofs.Curve.Closure
import ForeignCurve.Proofs.Codec
import ForeignCurve.Proofs.Frame
import ForeignCurve.Proofs.Instruction.Frame
import ForeignCurve.Proofs.Constraint.Mirror
import ForeignCurve.Proofs.RootQuotient
import ForeignCurve.Proofs.WordOverflow
import ForeignCurve.Proofs.RowSpan
import ForeignCurve.Proofs.Accepted
