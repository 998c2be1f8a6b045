import ForeignCurve.Instruction.Basic
import ForeignCurve.Manifest

/-!
The builder records a schedule: it hands out the cells of an arena and appends instructions. Missing
headroom of field parameters does not stop it; the first cause is kept, and building the chip fails.
-/

namespace ForeignCurve

structure Builder where
  numCells : Nat
  manifest : Manifest
  instructions : Array Instruction
  headroomFault? : Option HeadroomFault

abbrev Record := StateT Builder (Except Abort)

namespace Builder

def empty : Builder where
  numCells := 0
  manifest := .empty
  instructions := #[]
  headroomFault? := none

end Builder

namespace Record

def append (i : Instruction) : Record Unit :=
  modify fun b => { b with instructions := b.instructions.push i }

def requireHeadroom (P : FieldParams) : Record Unit :=
  modify fun b =>
    match b.headroomFault?, P.headroom with
    | none, .error f => { b with headroomFault? := some f }
    | _, _ => b

def ruleInstruction? (rule : CellRule) (s : CellSlice) : Option Instruction :=
  if s.len = 0 then none
  else match rule with
    | .free => none
    | .boolean => some (.boolean s)
    | .range bits => some (.range bits s)

def allocCells (size : Nat) (rule : CellRule) : Record CellSlice := do
  let s : CellSlice := ⟨(← get).numCells, size⟩
  modify fun b => { b with numCells := b.numCells + size }
  match ruleInstruction? rule s with
  | none => return s
  | some i =>
    append i
    return s

def requireWidth (size : Nat) : Record Unit :=
  modify fun b => { b with manifest := b.manifest.merge ⟨size⟩ }

def alloc (k : Kind) : Record (Register k) := do
  requireWidth k.size
  let s ← allocCells k.size k.rule
  return ⟨s.start⟩

def allocArray (k : Kind) (length : Nat) : Record (RegisterArray k) := do
  if 0 < length then
    requireWidth k.size
  let s ← allocCells (k.size * length) k.rule
  RegisterArray.ofSlice k s

def allocPoint (P : FieldParams) : Record (PointRegister P) := do
  let x ← alloc (.field P)
  let y ← alloc (.field P)
  return ⟨x, y⟩

end Record

end ForeignCurve
