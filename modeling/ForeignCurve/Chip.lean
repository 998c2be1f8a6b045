import ForeignCurve.Builder
import ForeignCurve.Constraint.Evaluation
import ForeignCurve.Instruction.Emission

/-!
A chip is a recorded schedule. The same schedule drives the witness pass, which fills a trace, and the
constraint pass, which emits one gate for each instruction that constrains anything.
-/

namespace ForeignCurve

structure Chip where
  instructions : Array Instruction
  numCells : Nat
  manifest : Manifest

namespace Builder

def build (b : Builder) : Except Fault Chip :=
  match b.headroomFault? with
  | some f => .error (.invalidParameters f)
  | none => .ok ⟨b.instructions, b.numCells, b.manifest⟩

end Builder

namespace Chip

def rowsAmount (c : Chip) (width : Nat) : Except Fault Nat := do
  return (← Layout.ofWidth width).rowsAmount c.numCells

def layout (c : Chip) (width : Nat) : Except Fault Layout := do
  c.manifest.check width
  Layout.ofWidth width

def newTrace (c : Chip) (width : Nat) : Except Fault Trace := do
  return Trace.empty (← c.layout width) c.numCells

def atInstruction (index : Nat) (x : TraceM α) : TraceM α := fun t =>
  match x t with
  | .error (.fault f) t => .error (.fault (.atInstruction index f)) t
  | r => r

def runFrom : Nat → List Instruction → TraceM Unit
  | _, [] => return
  | index, i :: is => do
    atInstruction index i.write
    runFrom (index + 1) is

def writeWitness (c : Chip) : TraceM Unit :=
  runFrom 0 c.instructions.toList

def emitAll (e : Emitter) (circuit : Circuit) : List Instruction → Except Abort Circuit
  | [] => return circuit
  | i :: is =>
    match i.emit e with
    | .error a _ => throw a
    | .ok () e =>
      let (_, e, circuit) := e.flush circuit
      emitAll e circuit is

def emit (c : Chip) (width : Nat) : Except Failure Circuit := do
  let layout ← c.layout width
  emitAll (Emitter.empty layout c.numCells) .empty c.instructions.toList

def evaluateAll (e : Evaluation) : List Instruction → Except Abort Evaluation
  | [] => return e
  | i :: is => do
    let e ← e.assertAll (← i.assertions e.cells)
    evaluateAll e is

def evaluate (c : Chip) (t : Trace) : Except Failure Evaluation := do
  let values ← t.readSlice ⟨0, c.numCells⟩
  evaluateAll (.empty values.toArray) c.instructions.toList

end Chip

end ForeignCurve
