import ForeignCurve.Constraint.Calls
import ForeignCurve.Constraint.Evaluation

/-!
Scripts of constraint building. A script names values by their position in a growing list. It can be
run on an emitter, which collects what is asserted, and over native values, where the assertions are
evaluated at once.
-/

namespace ForeignCurve.Script

inductive ValueStep where
  | cells (s : CellSlice)
  | const (c : Native)
  | add (a b : Nat)
  | sub (a b : Nat)
  | neg (a : Nat)
  | mul (a b : Nat)
  | addConst (a : Nat) (c : Native)
  | subConst (a : Nat) (c : Native)
  | mulConst (a : Nat) (c : Native)
  | constPoly (cs : List Native)
  | polyAdd (as bs : List Nat)
  | polySub (as bs : List Nat)
  | polyMul (as bs : List Nat)
  | polyShift (as : List Nat) (b : Nat)
  | polyScale (as : List Nat) (b : Nat)
  | polyMulConst (as : List Nat) (cs : List Native)

inductive AssertStep where
  | vanishes (a : Nat)
  | equal (a b : Nat)
  | lookup (table : LookupTable) (as : List Nat)
  | link (a b : CellSlice)

abbrev Values (V : Type) := Array V

namespace Values

def get (vs : Values V) (i : Nat) : Except Abort V :=
  match vs[i]? with
  | some v => .ok v
  | none => .error .outOfBounds

def getAll (vs : Values V) (is : List Nat) : Except Abort (List V) :=
  is.mapM vs.get

end Values

namespace ValueStep

def values [Arith V] (arena : CellValues V) (vs : Values V) : ValueStep → Except Abort (List V)
  | cells s => CellValues.slice arena s
  | const c => return [Arith.const c]
  | add a b => return [Arith.add (← vs.get a) (← vs.get b)]
  | sub a b => return [Arith.sub (← vs.get a) (← vs.get b)]
  | neg a => return [Arith.neg (← vs.get a)]
  | mul a b => return [Arith.mul (← vs.get a) (← vs.get b)]
  | addConst a c => return [Arith.addConst (← vs.get a) c]
  | subConst a c => return [Arith.subConst (← vs.get a) c]
  | mulConst a c => return [Arith.mulConst (← vs.get a) c]
  | constPoly cs => return Arith.constPoly cs
  | polyAdd as bs => return Arith.polyAdd (← vs.getAll as) (← vs.getAll bs)
  | polySub as bs => return Arith.polySub (← vs.getAll as) (← vs.getAll bs)
  | polyMul as bs => return Arith.polyMul (← vs.getAll as) (← vs.getAll bs)
  | polyShift as b => return Arith.polyShift (← vs.getAll as) (← vs.get b)
  | polyScale as b => return Arith.polyScale (← vs.getAll as) (← vs.get b)
  | polyMulConst as cs => return Arith.polyMulConst (← vs.getAll as) cs

end ValueStep

namespace AssertStep

def assertion [Arith V] (vs : Values V) : AssertStep → Except Abort (Assertion V)
  | vanishes a => return .vanishes (← vs.get a)
  | equal a b => return .vanishes (Arith.sub (← vs.get a) (← vs.get b))
  | lookup table as => return .lookup table (← vs.getAll as)
  | link a b => return .link a b

end AssertStep

inductive Step where
  | value (v : ValueStep)
  | assert (a : AssertStep)
  | flush

section Emitter

open Emitter

def ValueStep.emit (vs : Values NodeId) : ValueStep → Emit (List NodeId)
  | cells s => slice s
  | const c => do return [← Emitter.const c]
  | add a b => do return [← Emitter.add (← vs.get a) (← vs.get b)]
  | sub a b => do return [← Emitter.sub (← vs.get a) (← vs.get b)]
  | neg a => do return [← Emitter.neg (← vs.get a)]
  | mul a b => do return [← Emitter.mul (← vs.get a) (← vs.get b)]
  | addConst a c => do return [← Emitter.addConst (← vs.get a) c]
  | subConst a c => do return [← Emitter.subConst (← vs.get a) c]
  | mulConst a c => do return [← Emitter.mulConst (← vs.get a) c]
  | constPoly cs => Emitter.constPoly cs
  | polyAdd as bs => do Emitter.polyAdd (← vs.getAll as) (← vs.getAll bs)
  | polySub as bs => do Emitter.polySub (← vs.getAll as) (← vs.getAll bs)
  | polyMul as bs => do Emitter.polyMul (← vs.getAll as) (← vs.getAll bs)
  | polyShift as b => do Emitter.polyShift (← vs.getAll as) (← vs.get b)
  | polyScale as b => do Emitter.polyScale (← vs.getAll as) (← vs.get b)
  | polyMulConst as cs => do Emitter.polyMulConst (← vs.getAll as) cs

def AssertStep.emit (vs : Values NodeId) : AssertStep → Emit Unit
  | vanishes a => do constraint (← vs.get a)
  | equal a b => do assertEqual (← vs.get a) (← vs.get b)
  | lookup table as => do Emitter.lookup table (← vs.getAll as)
  | link a b => Emitter.link a b

end Emitter

/-- A script that runs on an emitter. A flush moves the segment's assertions into the circuit. -/
structure Emission where
  emitter : Emitter
  circuit : Circuit
  values : Values NodeId

namespace Emission

def empty (layout : Layout) (numCells : Nat) : Emission :=
  ⟨.empty layout numCells, .empty, #[]⟩

def value (v : ValueStep) : EStateM Abort Emission Nat := fun ⟨emitter, circuit, values⟩ =>
  match v.emit values emitter with
  | .ok new emitter => .ok new.length ⟨emitter, circuit, values ++ new⟩
  | .error a emitter => .error a ⟨emitter, circuit, values⟩

def assert (a : AssertStep) : EStateM Abort Emission Unit := fun ⟨emitter, circuit, values⟩ =>
  match a.emit values emitter with
  | .ok () emitter => .ok () ⟨emitter, circuit, values⟩
  | .error a emitter => .error a ⟨emitter, circuit, values⟩

def flush (e : Emission) : Option Nat × Emission :=
  let (gate, emitter, circuit) := e.emitter.flush e.circuit
  (gate, ⟨emitter, circuit, #[]⟩)

end Emission

structure Direct where
  evaluation : Evaluation
  values : Values Native

namespace Direct

def empty (cells : CellValues Native) : Direct :=
  ⟨.empty cells, #[]⟩

def value (d : Direct) (v : ValueStep) : Except Abort (List Native × Direct) := do
  let new ← v.values d.evaluation.cells d.values
  return (new, { d with values := d.values ++ new })

def assert (d : Direct) (a : AssertStep) : Except Abort Direct := do
  let evaluation ← d.evaluation.assert (← a.assertion d.values)
  return { d with evaluation }

def flush (d : Direct) : Evaluation × Direct :=
  (d.evaluation, { d with evaluation := .empty d.evaluation.cells })

end Direct

end ForeignCurve.Script
