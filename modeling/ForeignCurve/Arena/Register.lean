import ForeignCurve.Field.Params

namespace ForeignCurve

namespace CellSlice

def get (s : CellSlice) (i : Nat) : Except Abort CellSlice :=
  if i < s.len then .ok ⟨s.start + i, 1⟩ else .error (.sliceIndex i s.len)

def getRange (s : CellSlice) (first last : Nat) : Except Abort CellSlice :=
  if first ≤ last ∧ last ≤ s.len then .ok ⟨s.start + first, last - first⟩
  else .error .outOfBounds

end CellSlice

inductive Kind where
  | element
  | bit
  | limb (bits : Nat)
  | field (P : FieldParams)
deriving DecidableEq

inductive CellRule where
  | free
  | boolean
  | range (bits : Nat)
deriving DecidableEq

namespace Kind

def size : Kind → Nat
  | element | bit | limb _ => 1
  | field P => P.limbs

def rule : Kind → CellRule
  | element => .free
  | bit => .boolean
  | limb bits => .range bits
  | field P => .range P.limbBits

end Kind

structure Register (k : Kind) where
  start : Nat
deriving DecidableEq

namespace Register

def slice (r : Register k) : CellSlice :=
  ⟨r.start, k.size⟩

def ofSlice (k : Kind) (s : CellSlice) : Except Abort (Register k) :=
  if s.len = k.size then .ok ⟨s.start⟩ else .error (.registerLength k.size s.len)

end Register

abbrev FieldRegister (P : FieldParams) := Register (.field P)

structure PointRegister (P : FieldParams) where
  x : FieldRegister P
  y : FieldRegister P
deriving DecidableEq

structure RegisterArray (k : Kind) where
  slice : CellSlice
  length : Nat
deriving DecidableEq

namespace RegisterArray

def ofSlice (k : Kind) (s : CellSlice) : Except Abort (RegisterArray k) :=
  if k.size = 0 then .error .zeroSize else .ok ⟨s, s.len / k.size⟩

def get (a : RegisterArray k) (i : Nat) : Except Abort (Register k) :=
  if i < a.length then .ok ⟨a.slice.start + i * k.size⟩ else .error (.arrayIndex i a.length)

def toList (a : RegisterArray k) : List (Register k) :=
  (List.range a.length).map fun i => ⟨a.slice.start + i * k.size⟩

end RegisterArray

end ForeignCurve
