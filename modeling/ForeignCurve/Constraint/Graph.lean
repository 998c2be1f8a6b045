import ForeignCurve.Circuit.Expr

/-!
Expressions under construction. A graph holds nodes in the order in which they were built, and a node
names its operands by their positions, so that a node can be an operand many times. Reading out an
expression visits every node once.
-/

namespace ForeignCurve

abbrev NodeId := Nat

inductive Node where
  | cell (cell : Cell)
  | const (value : Native)
  | sum (a b : NodeId)
  | difference (a b : NodeId)
  | negation (a : NodeId)
  | product (a b : NodeId)

namespace Node

def operands : Node → List NodeId
  | cell _ | const _ => []
  | negation a => [a]
  | sum a b | difference a b | product a b => [a, b]

end Node

/-- Nodes whose operands come before them. -/
structure Graph where
  nodes : Array Node
  operands_lt : ∀ {id : NodeId} {node : Node}, nodes[id]? = some node → ∀ a ∈ node.operands, a < id

namespace Graph

def size (g : Graph) : Nat :=
  g.nodes.size

def ofCells (layout : Layout) (numCells : Nat) : Graph where
  nodes := Array.ofFn fun i : Fin numCells => .cell (layout.cell i)
  operands_lt := by
    intro id node h a ha
    rw [Array.getElem?_ofFn] at h
    split at h
    · cases h
      contradiction
    · contradiction

def push (g : Graph) (node : Node) (h : ∀ a ∈ node.operands, a < g.size) : Graph where
  nodes := g.nodes.push node
  operands_lt := by
    intro id node' h' a ha
    rw [Array.getElem?_push] at h'
    split at h'
    · next hid =>
      cases h'
      exact hid ▸ h a ha
    · exact g.operands_lt h' a ha

def take (g : Graph) (size : Nat) : Graph where
  nodes := g.nodes.shrink size
  operands_lt := by
    intro id node h
    rw [Array.getElem?_eq_some_iff] at h
    obtain ⟨hid, hnode⟩ := h
    rw [Array.getElem_shrink] at hnode
    exact g.operands_lt (Array.getElem?_eq_some_iff.mpr ⟨_, hnode⟩)

theorem getElem?_push_of_eq_some (g : Graph) {node : Node} (h : ∀ a ∈ node.operands, a < g.size)
    {id : NodeId} {node' : Node} (hid : g.nodes[id]? = some node') :
    (g.push node h).nodes[id]? = some node' := by
  have hlt : id < g.nodes.size := (Array.getElem?_eq_some_iff.mp hid).1
  rw [push, Array.getElem?_push, if_neg (Nat.ne_of_lt hlt), hid]

theorem getElem?_take_of_lt (g : Graph) {id size : Nat} (h : id < size) :
    (g.take size).nodes[id]? = g.nodes[id]? := by
  change (g.nodes.shrink size)[id]? = _
  rw [Array.shrink_eq_take, Array.take_eq_extract, Array.getElem?_extract]
  split
  · rw [Nat.zero_add]
  · rw [Array.getElem?_eq_none (by omega)]

inductive Denotes (g : Graph) : NodeId → Expr → Prop where
  | cell {id : NodeId} {c : Cell} (h : g.nodes[id]? = some (.cell c)) : Denotes g id (.cell c)
  | const {id : NodeId} {value : Native} (h : g.nodes[id]? = some (.const value)) :
    Denotes g id (.const value)
  | sum {id a b : NodeId} {x y : Expr} (h : g.nodes[id]? = some (.sum a b)) (ha : Denotes g a x)
    (hb : Denotes g b y) : Denotes g id (.sum x y)
  | difference {id a b : NodeId} {x y : Expr} (h : g.nodes[id]? = some (.difference a b))
    (ha : Denotes g a x) (hb : Denotes g b y) : Denotes g id (.difference x y)
  | negation {id a : NodeId} {x : Expr} (h : g.nodes[id]? = some (.negation a))
    (ha : Denotes g a x) : Denotes g id (.negation x)
  | product {id a b : NodeId} {x y : Expr} (h : g.nodes[id]? = some (.product a b))
    (ha : Denotes g a x) (hb : Denotes g b y) : Denotes g id (.product x y)

structure Memo (g : Graph) where
  first : Nat
  known : Array (Option Expr)
  denotes : ∀ {i : Nat} {x : Expr}, known[i]? = some (some x) → g.Denotes (first + i) x

namespace Memo

variable {g : Graph}

def empty (g : Graph) (first : Nat) : Memo g where
  first := first
  known := Array.replicate (g.size - first) none
  denotes := by
    intro i x h
    rw [Array.getElem?_replicate] at h
    split at h <;> simp at h

def find? (m : Memo g) (id : NodeId) : Option { x : Expr // g.Denotes id x } :=
  if hid : m.first ≤ id then
    match h : m.known[id - m.first]? with
    | some (some x) => some ⟨x, Nat.add_sub_cancel' hid ▸ m.denotes h⟩
    | _ => none
  else
    none

def insert (m : Memo g) (id : NodeId) (x : Expr) (h : g.Denotes id x) : Memo g :=
  if hid : m.first ≤ id then
    { first := m.first
      known := m.known.setIfInBounds (id - m.first) (some x)
      denotes := by
        intro i y hy
        rw [Array.getElem?_setIfInBounds] at hy
        split at hy
        · next hi =>
          split at hy
          · cases hy
            rwa [← hi, Nat.add_sub_cancel' hid]
          · contradiction
        · exact m.denotes hy }
  else
    m

end Memo

/-- The expression of a node, with sharing: a node that the memo knows is not visited again. -/
def expression (g : Graph) (id : NodeId) (hid : id < g.size) (memo : Memo g) :
    { x : Expr // g.Denotes id x } × Memo g :=
  match memo.find? id with
  | some x => (x, memo)
  | none =>
    have hnode : g.nodes[id]? = some g.nodes[id] := Array.getElem?_eq_getElem hid
    let (⟨x, hx⟩, memo) : { x : Expr // g.Denotes id x } × Memo g :=
      match g.nodes[id], hnode with
      | .cell c, h => (⟨.cell c, .cell h⟩, memo)
      | .const value, h => (⟨.const value, .const h⟩, memo)
      | .sum a b, h =>
        have ha : a < id := g.operands_lt h a (by simp [Node.operands])
        have hb : b < id := g.operands_lt h b (by simp [Node.operands])
        let (⟨x, hx⟩, memo) := g.expression a (Nat.lt_trans ha hid) memo
        let (⟨y, hy⟩, memo) := g.expression b (Nat.lt_trans hb hid) memo
        (⟨.sum x y, .sum h hx hy⟩, memo)
      | .difference a b, h =>
        have ha : a < id := g.operands_lt h a (by simp [Node.operands])
        have hb : b < id := g.operands_lt h b (by simp [Node.operands])
        let (⟨x, hx⟩, memo) := g.expression a (Nat.lt_trans ha hid) memo
        let (⟨y, hy⟩, memo) := g.expression b (Nat.lt_trans hb hid) memo
        (⟨.difference x y, .difference h hx hy⟩, memo)
      | .negation a, h =>
        have ha : a < id := g.operands_lt h a (by simp [Node.operands])
        let (⟨x, hx⟩, memo) := g.expression a (Nat.lt_trans ha hid) memo
        (⟨.negation x, .negation h hx⟩, memo)
      | .product a b, h =>
        have ha : a < id := g.operands_lt h a (by simp [Node.operands])
        have hb : b < id := g.operands_lt h b (by simp [Node.operands])
        let (⟨x, hx⟩, memo) := g.expression a (Nat.lt_trans ha hid) memo
        let (⟨y, hy⟩, memo) := g.expression b (Nat.lt_trans hb hid) memo
        (⟨.product x y, .product h hx hy⟩, memo)
    (⟨x, hx⟩, memo.insert id x hx)
termination_by id

def expressions (g : Graph) : (ids : List NodeId) → (∀ id ∈ ids, id < g.size) → Memo g →
    List Expr × Memo g
  | [], _, memo => ([], memo)
  | id :: ids, h, memo =>
    let (x, memo) := g.expression id (h id List.mem_cons_self) memo
    let (xs, memo) := g.expressions ids (fun a ha => h a (List.mem_cons_of_mem id ha)) memo
    (x.val :: xs, memo)

end Graph

end ForeignCurve
