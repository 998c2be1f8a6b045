import ForeignCurve.Arena.Register
import ForeignCurve.Curve.Params
import ForeignCurve.Table

namespace ForeignCurve

structure Trace where
  numCells : Nat
  table : Table Native

/-- Operations on a trace. The trace survives a failure. -/
abbrev TraceM := EStateM Failure Trace

instance : MonadLift (Except Failure) TraceM where
  monadLift
    | .ok a => pure a
    | .error e => throw e

namespace Trace

def empty (layout : Layout) (numCells : Nat) : Trace :=
  ⟨numCells, .empty layout⟩

def layout (t : Trace) : Layout :=
  t.table.layout

def checkBounds (t : Trace) (s : CellSlice) : Except Fault Unit :=
  if s.stop ≤ t.numCells then .ok () else .error (.outsideArena s t.numCells)

def readCell (t : Trace) (index : Nat) : Except Fault Native :=
  let cell := t.layout.cell index
  t.table.read cell.column cell.row

def readSlice (t : Trace) (s : CellSlice) : Except Fault (List Native) := do
  t.checkBounds s
  s.indices.mapM t.readCell

def readFirst (t : Trace) (r : Register k) : Except Fault Native := do
  t.checkBounds r.slice
  t.readCell r.start

def readField (t : Trace) (r : FieldRegister P) : Except Fault Nat := do
  return P.decode (← t.readSlice r.slice)

def readPoint (t : Trace) (r : PointRegister P) : Except Fault Point := do
  let x ← t.readField r.x
  let y ← t.readField r.y
  return ⟨x, y⟩

end Trace

namespace TraceM

def reading (read : Trace → Except Fault α) : TraceM α := fun t =>
  match read t with
  | .ok a => .ok a t
  | .error f => .error (.fault f) t

def fail (f : Fault) : TraceM α :=
  throw (.fault f)

def writeCell (index : Nat) (value : Native) : TraceM Unit := fun ⟨numCells, table⟩ =>
  let cell := table.layout.cell index
  match Table.write cell.column cell.row value table with
  | .ok () table => .ok () ⟨numCells, table⟩
  | .error f table => .error (.fault f) ⟨numCells, table⟩

def writeFrom : Nat → List Native → TraceM Unit
  | _, [] => return
  | index, value :: values => do
    writeCell index value
    writeFrom (index + 1) values

def writeSlice (s : CellSlice) (values : List Native) : TraceM Unit := do
  reading (·.checkBounds s)
  unless s.len = values.length do
    fail (.sliceLength s values.length)
  writeFrom s.start values

def write (r : Register k) (values : List Native) : TraceM Unit :=
  writeSlice r.slice values

def writeEach : List (Register k) → List (List Native) → TraceM Unit
  | [], [] => return
  | r :: rs, values :: rest => do
    write r values
    writeEach rs rest
  | _, _ => throw (.abort .unequalLengths)

def writeArray (a : RegisterArray k) (values : List (List Native)) : TraceM Unit := do
  unless a.length = values.length do
    fail (.arrayLength a.length values.length)
  writeEach a.toList values

def writePoint (r : PointRegister P) (p : Point) : TraceM Unit := do
  let x ← P.encode p.x
  let y ← P.encode p.y
  write r.x x
  write r.y y

end TraceM

end ForeignCurve
