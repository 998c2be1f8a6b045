import ForeignCurve.Constraint.Assertion
import ForeignCurve.Constraint.Graph

/-!
The emitter collects assertions about nodes of a graph, and hands them to a circuit as assertions about
expressions: everything asserted since the last flush becomes one gate, if anything has to vanish, then
its lookups, then its copies. A flush drops all nodes but the cells.
-/

namespace ForeignCurve

/-- Assertions over the cells of an arena that are not yet part of a circuit. -/
structure Emitter where
  layout : Layout
  numCells : Nat
  graph : Graph
  constraints : Array NodeId
  lookups : Array (LookupTable × List NodeId)
  copies : Array (Cell × Cell)
  cells_eq : ∀ i < numCells, graph.nodes[i]? = some (.cell (layout.cell i))
  constraints_lt : ∀ id ∈ constraints, id < graph.size
  lookups_lt : ∀ lookup ∈ lookups, ∀ id ∈ lookup.2, id < graph.size

abbrev Emit := EStateM Abort Emitter

instance : MonadLift (Except Abort) Emit where
  monadLift
    | .ok a => pure a
    | .error e => throw e

namespace Emitter

def empty (layout : Layout) (numCells : Nat) : Emitter where
  layout := layout
  numCells := numCells
  graph := .ofCells layout numCells
  constraints := #[]
  lookups := #[]
  copies := #[]
  cells_eq := by
    intro i hi
    simp [Graph.ofCells, hi]
  constraints_lt := by simp
  lookups_lt := by simp

section Calls

def push (node : Node) : Emit NodeId := fun e =>
  if h : ∀ a ∈ node.operands, a < e.graph.size then
    have hle : e.graph.size < (e.graph.push node h).size := by simp [Graph.size, Graph.push]
    .ok e.graph.size { e with
      graph := e.graph.push node h
      cells_eq := fun i hi => e.graph.getElem?_push_of_eq_some h (e.cells_eq i hi)
      constraints_lt := fun id hid => Nat.lt_trans (e.constraints_lt id hid) hle
      lookups_lt := fun lookup hl id hid => Nat.lt_trans (e.lookups_lt lookup hl id hid) hle }
  else
    .error .outOfBounds e

def slice (s : CellSlice) : Emit (List NodeId) := fun e =>
  if s.stop ≤ e.numCells then .ok s.indices e else .error .outOfBounds e

def cell (index : Nat) : Emit NodeId := fun e =>
  if index < e.numCells then .ok index e else .error .outOfBounds e

def const (value : Native) : Emit NodeId :=
  push (.const value)

def add (a b : NodeId) : Emit NodeId :=
  push (.sum a b)

def sub (a b : NodeId) : Emit NodeId :=
  push (.difference a b)

def neg (a : NodeId) : Emit NodeId :=
  push (.negation a)

def mul (a b : NodeId) : Emit NodeId :=
  push (.product a b)

def constraint (id : NodeId) : Emit Unit := fun e =>
  if h : id < e.graph.size then
    .ok () { e with
      constraints := e.constraints.push id
      constraints_lt := fun a ha => (Array.mem_push.mp ha).elim (e.constraints_lt a) (· ▸ h) }
  else
    .error .outOfBounds e

def lookup (table : LookupTable) (ids : List NodeId) : Emit Unit := fun e =>
  if h : ∀ id ∈ ids, id < e.graph.size then
    .ok () { e with
      lookups := e.lookups.push (table, ids)
      lookups_lt := fun l hl => (Array.mem_push.mp hl).elim (e.lookups_lt l) (· ▸ h) }
  else
    .error .outOfBounds e

def linkCells : List Nat → List Nat → Emit Unit
  | [], [] => return
  | i :: is, j :: js => do
    modify fun e => { e with copies := e.copies.push (e.layout.cell i, e.layout.cell j) }
    linkCells is js
  | _, _ => throw .unequalLengths

def link (a b : CellSlice) : Emit Unit :=
  linkCells a.indices b.indices

end Calls

def reset (e : Emitter) : Emitter where
  layout := e.layout
  numCells := e.numCells
  graph := e.graph.take e.numCells
  constraints := #[]
  lookups := #[]
  copies := #[]
  cells_eq := fun i hi => e.graph.getElem?_take_of_lt hi ▸ e.cells_eq i hi
  constraints_lt := by simp
  lookups_lt := by simp

def readLookups (g : Graph) : (lookups : List (LookupTable × List NodeId)) →
    (∀ lookup ∈ lookups, ∀ id ∈ lookup.2, id < g.size) → Graph.Memo g →
    List (LookupTable × List Expr)
  | [], _, _ => []
  | (table, ids) :: lookups, h, memo =>
    let (xs, memo) := g.expressions ids (h (table, ids) List.mem_cons_self) memo
    (table, xs) :: readLookups g lookups (fun l hl => h l (List.mem_cons_of_mem _ hl)) memo

/-- Moves all that is asserted into the circuit. The gate's number is returned, if there is one. -/
def flush (e : Emitter) (c : Circuit) : Option Nat × Emitter × Circuit :=
  let (constraints, memo) := e.graph.expressions e.constraints.toList
    (fun id hid => e.constraints_lt id (Array.mem_toList_iff.mp hid)) (.empty e.graph e.numCells)
  let gate := if constraints.isEmpty then none else some c.gates.size
  let c := if constraints.isEmpty then c else c.addGate constraints
  let lookups := readLookups e.graph e.lookups.toList
    (fun l hl => e.lookups_lt l (Array.mem_toList_iff.mp hl)) memo
  let c := lookups.foldl (fun c lookup => c.addLookup lookup.1 lookup.2) c
  let c := e.copies.foldl (fun c copy => c.addCopy copy.1 copy.2) c
  (gate, e.reset, c)

end Emitter

end ForeignCurve
