import ForeignCurve.Failure

namespace ForeignCurve

structure Manifest where
  minWidth : Nat
deriving DecidableEq

namespace Manifest

def empty : Manifest := ⟨0⟩

def merge (m n : Manifest) : Manifest :=
  ⟨max m.minWidth n.minWidth⟩

def required (m : Manifest) : Nat :=
  max m.minWidth 1

def check (m : Manifest) (width : Nat) : Except Fault Unit :=
  if m.required ≤ width then .ok () else .error (.narrowTable width m.required)

end Manifest

end ForeignCurve
