import ForeignCurve.Arena.Cell

/-!
What can go wrong. A `Fault` is reported to the caller with a text; an `Abort` is a broken
precondition that stops the operation at once. Both are causes: the wording is in `message`.
-/

namespace ForeignCurve

inductive HeadroomFault where
  | noLimbs
  | limbWidth (bits : Nat)
  | modulusTooWide (modulus limbs bits : Nat)
  | witnessLength (expected got : Nat)
  | offsetTooSmall (offset bound : Nat)
  | offsetTooLarge (offset : Nat)
  | nativeOverflow (limbs bits : Nat)
deriving DecidableEq

namespace HeadroomFault

def message : HeadroomFault → String
  | noLimbs => "a field element needs at least one limb"
  | limbWidth bits => s!"limbs of {bits} bits are not supported"
  | modulusTooWide modulus limbs bits =>
    s!"modulus {modulus} does not fit in {limbs} limbs of {bits} bits"
  | witnessLength expected got => s!"expected {expected} witness limbs, got {got}"
  | offsetTooSmall offset bound => s!"witness offset {offset} is below the quotient bound {bound}"
  | offsetTooLarge offset => s!"witness offset {offset} does not fit in two limbs"
  | nativeOverflow limbs bits => s!"{limbs} limbs of {bits} bits overflow the native field"

end HeadroomFault

/-- A reported failure of building, sizing or filling a chip. -/
inductive Fault where
  | zeroWidth
  | narrowTable (width required : Nat)
  | invalidParameters (cause : HeadroomFault)
  | alreadyAssigned (cell : Cell)
  | notAssigned (cell : Cell)
  | outsideArena (slice : CellSlice) (numCells : Nat)
  | sliceLength (slice : CellSlice) (got : Nat)
  | arrayLength (expected got : Nat)
  | selectLengths
  | notABit (value : Nat)
  | valueTooWide (value bits : Nat)
  | sumTooWide (limbs : Nat)
  | negativeDifference (subtrahend minuend : Nat)
  | inconsistentLimb (limb : Nat)
  | unreducedFactors (modulus : Nat)
  | unreducedMinuend (minuend modulus : Nat)
  | identityNotVanishing (bits : Nat)
  | quotientOutOfRange
  | divisionByZero
  | atInstruction (index : Nat) (cause : Fault)

def CellSlice.text (s : CellSlice) : String :=
  s!"{s.start}..{s.stop}"

namespace Fault

def message : Fault → String
  | zeroWidth => "table width must be positive"
  | narrowTable width required =>
    s!"a width of {width} columns is below the required minimum of {required}"
  | invalidParameters cause => "invalid chip parameters: " ++ cause.message
  | alreadyAssigned cell => s!"cell (column {cell.column}, row {cell.row}) is already assigned"
  | notAssigned cell => s!"cell (column {cell.column}, row {cell.row}) is not assigned"
  | outsideArena slice numCells =>
    s!"cells {slice.text} are outside of the arena of {numCells} cells"
  | sliceLength slice got => s!"expected {slice.len} values for cells {slice.text}, got {got}"
  | arrayLength expected got => s!"expected {expected} values, got {got}"
  | selectLengths => "select operands have mismatched lengths"
  | notABit value => s!"selector {value} is not a bit"
  | valueTooWide value bits => s!"value {value} does not fit in {bits} bits"
  | sumTooWide limbs => s!"limb addition overflows {limbs} limbs"
  | negativeDifference subtrahend minuend =>
    s!"limb subtraction underflows: {subtrahend} > {minuend}"
  | inconsistentLimb limb => s!"limb {limb} of the sum is inconsistent"
  | unreducedFactors modulus => s!"multiplication operands are not reduced modulo {modulus}"
  | unreducedMinuend minuend modulus =>
    s!"subtraction operand {minuend} is not reduced modulo {modulus}"
  | identityNotVanishing bits => s!"the field identity does not vanish at 2^{bits}"
  | quotientOutOfRange => "quotient coefficient out of range"
  | divisionByZero => "division by zero"
  | atInstruction index cause =>
    s!"witness generation failed at instruction {index}: " ++ cause.message

end Fault

/-- A broken precondition. The operation stops and has no result. -/
inductive Abort where
  | arrayIndex (index length : Nat)
  | sliceIndex (index length : Nat)
  | registerLength (expected got : Nat)
  | emptyLimbSum
  | operandLength
  | resultLength
  | underflow
  | wordOverflow
  | zeroSize
  | zeroModulus
  | unequalLengths
  | outOfBounds
  | notCanonical
deriving DecidableEq

namespace Abort

def message? : Abort → Option String
  | arrayIndex index length =>
    some s!"Index {index} out of bounds for an array of length {length}"
  | sliceIndex index length =>
    some s!"index {index} out of bounds for slice of length {length}"
  | registerLength expected got =>
    some s!"Invalid register length: expected {expected}, got {got}"
  | emptyLimbSum => some "limb addition needs at least one limb"
  | operandLength => some "operand length mismatch"
  | resultLength => some "result length mismatch"
  | underflow | wordOverflow | zeroSize | zeroModulus | unequalLengths | outOfBounds | notCanonical => none

end Abort

inductive Failure where
  | fault (cause : Fault)
  | abort (cause : Abort)

instance : MonadLift (Except Fault) (Except Failure) where
  monadLift x := x.mapError Failure.fault

instance : MonadLift (Except Abort) (Except Failure) where
  monadLift x := x.mapError Failure.abort

def checkedSub (a b : Nat) : Except Abort Nat :=
  if b ≤ a then .ok (a - b) else .error .underflow

def zipExact : List α → List β → Except Abort (List (α × β))
  | [], [] => .ok []
  | a :: as, b :: bs => do return (a, b) :: (← zipExact as bs)
  | _, _ => .error .unequalLengths

end ForeignCurve
