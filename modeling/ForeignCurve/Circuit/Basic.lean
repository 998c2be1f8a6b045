import ForeignCurve.Circuit.Expr

namespace ForeignCurve

attribute [local instance] Native.natPow

inductive LookupTable where
  | range (bits : Nat)
deriving DecidableEq

namespace LookupTable

def contains : LookupTable → List Nat → Bool
  | range bits, [value] => bits ≥ 64 ∨ value < 2 ^ bits
  | range _, _ => false

end LookupTable

structure Circuit where
  gates : Array (List Expr)
  lookups : Array (LookupTable × List Expr)
  copies : Array (Cell × Cell)
deriving DecidableEq

inductive Violation where
  | gate (gate constraint : Nat)
  | lookup (table : LookupTable) (lookup : Nat)
  | copy (a b : Cell)
  | unassigned (cell : Cell)
deriving DecidableEq

namespace Violation

def cellText (c : Cell) : String :=
  "Cell \x7b column: " ++ toString c.column ++ ", row: " ++ toString c.row ++ " \x7d"

def tableText : LookupTable → String
  | .range bits => s!"Range({bits})"

def text : Violation → String
  | gate i j =>
    "Gate \x7b gate: GateId(" ++ toString i ++ "), constraint: " ++ toString j ++ " \x7d"
  | lookup table i =>
    "Lookup \x7b table: " ++ tableText table ++ ", lookup: " ++ toString i ++ " \x7d"
  | copy a b => "Copy \x7b a: " ++ cellText a ++ ", b: " ++ cellText b ++ " \x7d"
  | unassigned cell => "Unassigned(" ++ cellText cell ++ ")"

def message (v : Violation) : String :=
  "witness does not satisfy the circuit: " ++ v.text

end Violation

namespace Circuit

def empty : Circuit := ⟨#[], #[], #[]⟩

def addGate (c : Circuit) (constraints : List Expr) : Circuit :=
  { c with gates := c.gates.push constraints }

def addLookup (c : Circuit) (table : LookupTable) (values : List Expr) : Circuit :=
  { c with lookups := c.lookups.push (table, values) }

def addCopy (c : Circuit) (a b : Cell) : Circuit :=
  { c with copies := c.copies.push (a, b) }

def numConstraints (c : Circuit) : Nat :=
  c.gates.foldl (fun n gate => n + gate.length) 0

def maxRow (es : List Expr) : Option Nat :=
  es.foldl (fun row e => Expr.joinRows row e.maxRow) none

def rowsAmount (c : Circuit) : Nat :=
  let row := c.gates.foldl (fun row gate => Expr.joinRows row (maxRow gate)) none
  let row := c.lookups.foldl (fun row lookup => Expr.joinRows row (maxRow lookup.2)) row
  let row := c.copies.foldl (fun row copy => Expr.joinRows row (some (max copy.1.row copy.2.row))) row
  match row with
  | none => 0
  | some row => row + 1

def constraintViolation (t : Table Native) (gate constraint : Nat) (e : Expr) : Option Violation :=
  match e.evaluate t with
  | .ok value => if value = 0 then none else some (.gate gate constraint)
  | .error cell => some (.unassigned cell)

def gateViolations (t : Table Native) (gate : Nat) (constraints : List Expr) : List Violation :=
  constraints.zipIdx.filterMap fun (e, constraint) => constraintViolation t gate constraint e

def lookupViolation (t : Table Native) (lookup : Nat) (table : LookupTable) (values : List Expr) :
    Option Violation :=
  match values.mapM (·.evaluate t) with
  | .ok values =>
    if table.contains (values.map (·.val)) then none else some (.lookup table lookup)
  | .error cell => some (.unassigned cell)

def copyViolation (t : Table Native) (a b : Cell) : Option Violation :=
  match t.get? a, t.get? b with
  | some x, some y => if x = y then none else some (.copy a b)
  | none, _ => some (.unassigned a)
  | some _, none => some (.unassigned b)

def violations (c : Circuit) (t : Table Native) : List Violation :=
  c.gates.toList.zipIdx.flatMap (fun (gate, i) => gateViolations t i gate) ++
    c.lookups.toList.zipIdx.filterMap (fun ((table, values), i) => lookupViolation t i table values) ++
    c.copies.toList.filterMap fun (a, b) => copyViolation t a b

def check (c : Circuit) (t : Table Native) : Except Violation Unit :=
  match c.violations t with
  | [] => .ok ()
  | v :: _ => .error v

end Circuit

end ForeignCurve
