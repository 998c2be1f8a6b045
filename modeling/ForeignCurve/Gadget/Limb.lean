import ForeignCurve.Builder

namespace ForeignCurve.Gadget

def setConstant (target : Register k) (values : List Native) : Record Unit :=
  Record.append (.constant target.slice values true)

def assertConstant (target : Register k) (values : List Native) : Record Unit :=
  Record.append (.constant target.slice values false)

def setToCopy (source target : Register k) : Record Unit :=
  Record.append (.copy source.slice target.slice)

def setSelect (bit : Register .bit) (ifTrue ifFalse result : Register k) : Record Unit :=
  Record.append (.select bit ifTrue.slice ifFalse.slice result.slice)

def select (bit : Register .bit) (ifTrue ifFalse : Register k) : Record (Register k) := do
  let result ← Record.alloc k
  setSelect bit ifTrue ifFalse result
  return result

def decompose (value : Register .element) (count : Nat) : Record (RegisterArray .bit) := do
  let bits ← Record.allocArray .bit count
  Record.append (.decompose value bits)
  return bits

def limbSum (a : CellSlice) (b result : LimbOperand) (limbBits : Nat) : Record LimbSum := do
  if a.len = 0 then
    throw .emptyLimbSum
  unless b.length = a.len do
    throw .operandLength
  unless result.length = a.len do
    throw .resultLength
  let carries ← Record.allocArray .bit (a.len - 1)
  let sum : LimbSum := { a, b, result, carries, limbBits }
  Record.append (.limbSum sum)
  return sum

def greaterThan (value : CellSlice) (bound limbBits : Nat) : Record (Register .bit) := do
  let result ← Record.alloc .bit
  Record.append (.greaterThan value (Limbs.encode limbBits value.len bound) limbBits result)
  return result

end ForeignCurve.Gadget
