import ForeignCurve.Constraint.Graph
import Mathlib.Data.List.Forall2

namespace ForeignCurve

namespace Graph

variable {g g' g'' : Graph}

abbrev DenoteAll (g : Graph) : List NodeId → List Expr → Prop :=
  List.Forall₂ g.Denotes

protected def le (g g' : Graph) : Prop :=
  ∀ (id : NodeId) (node : Node), g.nodes[id]? = some node → g'.nodes[id]? = some node

instance : LE Graph := ⟨Graph.le⟩

theorem le_refl (g : Graph) : g ≤ g := fun _ _ h => h

theorem le_trans (h : g ≤ g') (h' : g' ≤ g'') : g ≤ g'' :=
  fun id node hid => h' id node (h id node hid)

protected theorem ext (h : ∀ id : NodeId, g.nodes[id]? = g'.nodes[id]?) : g = g' := by
  obtain ⟨nodes, _⟩ := g
  obtain ⟨nodes', _⟩ := g'
  have hnodes : nodes = nodes' := Array.ext_getElem? h
  congr 1

theorem le_push (g : Graph) {node : Node} (h : ∀ a ∈ node.operands, a < g.size) :
    g ≤ g.push node h :=
  fun _ _ hid => g.getElem?_push_of_eq_some h hid

theorem getElem?_push_size (g : Graph) {node : Node} (h : ∀ a ∈ node.operands, a < g.size) :
    (g.push node h).nodes[g.size]? = some node :=
  Array.getElem?_push_size

namespace Denotes

variable {id : NodeId} {x y : Expr}

theorem lt_size (h : g.Denotes id x) : id < g.size := by
  cases h with
  | cell h | const h | sum h | difference h | negation h | product h =>
    exact (Array.getElem?_eq_some_iff.mp h).1

theorem mono (h : g.Denotes id x) (hle : g ≤ g') : g'.Denotes id x := by
  induction h with
  | cell h => exact .cell (hle _ _ h)
  | const h => exact .const (hle _ _ h)
  | sum h _ _ iha ihb => exact .sum (hle _ _ h) iha ihb
  | difference h _ _ iha ihb => exact .difference (hle _ _ h) iha ihb
  | negation h _ iha => exact .negation (hle _ _ h) iha
  | product h _ _ iha ihb => exact .product (hle _ _ h) iha ihb

def OfNode (g : Graph) : Node → Expr → Prop
  | .cell c, e => e = .cell c
  | .const value, e => e = .const value
  | .sum a b, e => ∃ x y, g.Denotes a x ∧ g.Denotes b y ∧ e = .sum x y
  | .difference a b, e => ∃ x y, g.Denotes a x ∧ g.Denotes b y ∧ e = .difference x y
  | .negation a, e => ∃ x, g.Denotes a x ∧ e = .negation x
  | .product a b, e => ∃ x y, g.Denotes a x ∧ g.Denotes b y ∧ e = .product x y

theorem ofNode (h : g.Denotes id x) {node : Node} (hnode : g.nodes[id]? = some node) :
    OfNode g node x := by
  cases h with
  | cell h | const h =>
    rw [h] at hnode
    cases hnode
    rfl
  | sum h ha hb | difference h ha hb | product h ha hb =>
    rw [h] at hnode
    cases hnode
    exact ⟨_, _, ha, hb, rfl⟩
  | negation h ha =>
    rw [h] at hnode
    cases hnode
    exact ⟨_, ha, rfl⟩

theorem unique (h : g.Denotes id x) (h' : g.Denotes id y) : x = y := by
  induction h generalizing y with
  | cell h | const h => exact (h'.ofNode h).symm
  | sum h _ _ iha ihb | difference h _ _ iha ihb | product h _ _ iha ihb =>
    obtain ⟨u, v, hu, hv, rfl⟩ := h'.ofNode h
    rw [iha hu, ihb hv]
  | negation h _ iha =>
    obtain ⟨u, hu, rfl⟩ := h'.ofNode h
    rw [iha hu]

end Denotes

namespace DenoteAll

variable {ids : List NodeId} {xs ys : List Expr}

theorem mono (h : g.DenoteAll ids xs) (hle : g ≤ g') : g'.DenoteAll ids xs :=
  h.imp fun _ _ hx => hx.mono hle

theorem unique (h : g.DenoteAll ids xs) (h' : g.DenoteAll ids ys) : xs = ys := by
  induction h generalizing ys with
  | nil =>
    cases h'
    rfl
  | cons hx _ ih =>
    cases h' with
    | cons hy hys => rw [hx.unique hy, ih hys]

theorem lt_size (h : g.DenoteAll ids xs) : ∀ id ∈ ids, id < g.size := by
  induction h with
  | nil => simp
  | cons hx _ ih => exact List.forall_mem_cons.mpr ⟨hx.lt_size, ih⟩

end DenoteAll

theorem denoteAll_expressions (g : Graph) (ids : List NodeId) (h : ∀ id ∈ ids, id < g.size)
    (memo : Memo g) : g.DenoteAll ids (g.expressions ids h memo).1 := by
  induction ids generalizing memo with
  | nil => exact .nil
  | cons id ids ih => exact .cons (g.expression id _ memo).1.property (ih _ _)

end Graph

end ForeignCurve
