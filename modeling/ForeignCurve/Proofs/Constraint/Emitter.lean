import ForeignCurve.Constraint.Emitter
import ForeignCurve.Proofs.Constraint.Graph
import ForeignCurve.Proofs.Constraint.Hom

namespace ForeignCurve

namespace Assertion

variable {V : Type}

def vanishing (as : List (Assertion V)) : List V :=
  as.filterMap fun
    | .vanishes value => some value
    | _ => none

def lookups (as : List (Assertion V)) : List (LookupTable × List V) :=
  as.filterMap fun
    | .lookup table values => some (table, values)
    | _ => none

def links (as : List (Assertion V)) : List (CellSlice × CellSlice) :=
  as.filterMap fun
    | .link a b => some (a, b)
    | _ => none

def copies (l : Layout) (as : List (Assertion V)) : List (Cell × Cell) :=
  (links as).flatMap fun (a, b) => (a.indices.zip b.indices).map fun (i, j) => (l.cell i, l.cell j)

def Linked (as : List (Assertion V)) : Prop :=
  ∀ p ∈ links as, p.1.len = p.2.len

instance (as : List (Assertion V)) : Decidable (Linked as) :=
  inferInstanceAs (Decidable (∀ p ∈ links as, p.1.len = p.2.len))

def checked (as : List (Assertion V)) : Except Abort (List (Assertion V)) :=
  if Linked as then .ok as else .error .unequalLengths

section Membership

variable {as : List (Assertion V)}

theorem mem_vanishing {value : V} : value ∈ vanishing as ↔ .vanishes value ∈ as := by
  unfold vanishing
  rw [List.mem_filterMap]
  constructor
  · rintro ⟨a, ha, hvalue⟩
    cases a <;> simp at hvalue
    exact hvalue ▸ ha
  · exact fun ha => ⟨_, ha, rfl⟩

theorem mem_lookups {lookup : LookupTable × List V} :
    lookup ∈ lookups as ↔ .lookup lookup.1 lookup.2 ∈ as := by
  unfold lookups
  rw [List.mem_filterMap]
  constructor
  · rintro ⟨a, ha, hlookup⟩
    cases a <;> simp at hlookup
    exact hlookup ▸ ha
  · exact fun ha => ⟨_, ha, rfl⟩

theorem mem_links {link : CellSlice × CellSlice} : link ∈ links as ↔ .link link.1 link.2 ∈ as := by
  unfold links
  rw [List.mem_filterMap]
  constructor
  · rintro ⟨a, ha, hlink⟩
    cases a <;> simp at hlink
    exact hlink ▸ ha
  · exact fun ha => ⟨_, ha, rfl⟩

end Membership

section Map

variable {W : Type} (f : V → W)

theorem vanishing_map (as : List (Assertion V)) :
    vanishing (as.map (Assertion.map f)) = (vanishing as).map f := by
  unfold vanishing
  rw [List.filterMap_map, List.map_filterMap]
  congr 1
  funext a
  cases a <;> rfl

theorem lookups_map (as : List (Assertion V)) :
    lookups (as.map (Assertion.map f)) = (lookups as).map fun l => (l.1, l.2.map f) := by
  unfold lookups
  rw [List.filterMap_map, List.map_filterMap]
  congr 1
  funext a
  cases a <;> rfl

theorem links_map (as : List (Assertion V)) : links (as.map (Assertion.map f)) = links as := by
  unfold links
  rw [List.filterMap_map]
  congr 1
  funext a
  cases a <;> rfl

theorem checked_map (as : List (Assertion V)) :
    checked (as.map (Assertion.map f)) = (checked as).map (List.map (Assertion.map f)) := by
  have hlinked : Linked (as.map (Assertion.map f)) ↔ Linked as := by
    unfold Linked
    rw [links_map]
  unfold checked
  by_cases h : Linked as
  · rw [if_pos h, if_pos (hlinked.mpr h)]
    rfl
  · rw [if_neg h, if_neg (hlinked.not.mpr h)]
    rfl

end Map

theorem copies_append (l : Layout) (as bs : List (Assertion V)) :
    copies l (as ++ bs) = copies l as ++ copies l bs := by
  simp only [copies, links, List.filterMap_append, List.flatMap_append]

theorem Linked.append {as bs : List (Assertion V)} (h : Linked as) (h' : Linked bs) :
    Linked (as ++ bs) := by
  unfold Linked links at *
  rw [List.filterMap_append, List.forall_mem_append]
  exact ⟨h, h'⟩

end Assertion

namespace Circuit

instance : Append Circuit :=
  ⟨fun c c' => ⟨c.gates ++ c'.gates, c.lookups ++ c'.lookups, c.copies ++ c'.copies⟩⟩

def ofAssertions (l : Layout) (as : List (Assertion Expr)) : Circuit where
  gates := if (Assertion.vanishing as).isEmpty then #[] else #[Assertion.vanishing as]
  lookups := (Assertion.lookups as).toArray
  copies := (Assertion.copies l as).toArray

end Circuit

namespace Emitter

variable {α β γ : Type}

def cells (e : Emitter) : CellValues Expr :=
  Array.ofFn fun i : Fin e.numCells => .cell (e.layout.cell i)

def DenotesLookup (g : Graph) (l : LookupTable × List NodeId) (l' : LookupTable × List Expr) : Prop :=
  l.1 = l'.1 ∧ g.DenoteAll l.2 l'.2

structure Records (e : Emitter) (as : List (Assertion Expr)) (e' : Emitter) : Prop where
  layout : e'.layout = e.layout
  numCells : e'.numCells = e.numCells
  graph : e.graph ≤ e'.graph
  constraints : ∃ ids, e'.constraints.toList = e.constraints.toList ++ ids ∧
    e'.graph.DenoteAll ids (Assertion.vanishing as)
  lookups : ∃ ls, e'.lookups.toList = e.lookups.toList ++ ls ∧
    List.Forall₂ (DenotesLookup e'.graph) ls (Assertion.lookups as)
  copies : e'.copies.toList = e.copies.toList ++ Assertion.copies e.layout as
  linked : Assertion.Linked as

namespace Records

variable {e e' e'' : Emitter} {as bs : List (Assertion Expr)}

theorem refl (e : Emitter) : e.Records [] e where
  layout := rfl
  numCells := rfl
  graph := Graph.le_refl _
  constraints := ⟨[], (List.append_nil _).symm, .nil⟩
  lookups := ⟨[], (List.append_nil _).symm, .nil⟩
  copies := (List.append_nil _).symm
  linked := by simp [Assertion.Linked, Assertion.links]

theorem trans (h : e.Records as e') (h' : e'.Records bs e'') : e.Records (as ++ bs) e'' := by
  obtain ⟨ids, hids, hden⟩ := h.constraints
  obtain ⟨ids', hids', hden'⟩ := h'.constraints
  obtain ⟨ls, hls, hlookups⟩ := h.lookups
  obtain ⟨ls', hls', hlookups'⟩ := h'.lookups
  refine ⟨h'.layout.trans h.layout, h'.numCells.trans h.numCells, Graph.le_trans h.graph h'.graph,
    ⟨ids ++ ids', ?_, ?_⟩, ⟨ls ++ ls', ?_, ?_⟩, ?_, h.linked.append h'.linked⟩
  · rw [hids', hids, List.append_assoc]
  · rw [Assertion.vanishing, List.filterMap_append]
    exact List.rel_append (hden.mono h'.graph) hden'
  · rw [hls', hls, List.append_assoc]
  · rw [Assertion.lookups, List.filterMap_append]
    exact List.rel_append (hlookups.imp fun l l' hl => ⟨hl.1, hl.2.mono h'.graph⟩) hlookups'
  · rw [h'.copies, h.copies, h.layout, List.append_assoc, Assertion.copies_append]

theorem cells (h : e.Records as e') : e'.cells = e.cells := by
  unfold Emitter.cells
  rw [h.layout]
  rw [h.numCells]

end Records

/--
A computation on an emitter does what one over expressions does: it fails in the same way, and where both
succeed, their results are related and the assertions are recorded.
-/
def Simulates (e : Emitter) (x : Emit α) (y : Except Abort β) (as : β → List (Assertion Expr))
    (R : Graph → α → β → Prop) : Prop :=
  match y with
  | .ok b => ∃ a e', x e = .ok a e' ∧ e.Records (as b) e' ∧ R e'.graph a b
  | .error err => ∃ e', x e = .error err e'

abbrev Builds (e : Emitter) (x : Emit α) (y : Except Abort β) (R : Graph → α → β → Prop) : Prop :=
  e.Simulates x y (fun _ => []) R

abbrev Asserts (e : Emitter) (x : Emit Unit) (y : Except Abort (List (Assertion Expr))) : Prop :=
  e.Simulates x y id fun _ _ _ => True

section Simulation

variable {e : Emitter} {R : Graph → α → β → Prop}

theorem Builds.pure {a : α} {b : β} (h : R e.graph a b) : e.Builds (pure a) (.ok b) R :=
  ⟨a, e, rfl, .refl e, h⟩

theorem Asserts.nothing (e : Emitter) : e.Asserts (Pure.pure ()) (.ok []) :=
  ⟨(), e, rfl, .refl e, trivial⟩

theorem Simulates.throw {x : Emit α} {y : Except Abort β} {as : β → List (Assertion Expr)} {a : Abort}
    (hy : y = .error a) (hx : ∃ e', x e = .error a e') : e.Simulates x y as R := by
  subst hy
  exact hx

section Bind

variable {δ : Type} {x : Emit α} {f : α → Emit γ} {as : δ → List (Assertion Expr)}
  {R' : Graph → γ → δ → Prop}

theorem Builds.step {b : β} {z : Except Abort δ} (h : e.Builds x (.ok b) R)
    (hf : ∀ a e', e.Records [] e' → R e'.graph a b → e'.Simulates (f a) z as R') :
    e.Simulates (x >>= f) z as R' := by
  obtain ⟨a, e', hx, hrec, hab⟩ := h
  have hrest := hf a e' hrec hab
  have hbind : (x >>= f) e = f a e' := by
    change EStateM.bind x f e = _
    unfold EStateM.bind
    rw [hx]
  unfold Simulates at hrest ⊢
  rw [hbind]
  cases z with
  | error err => exact hrest
  | ok d =>
    obtain ⟨c, e'', hfa, hrec', hcd⟩ := hrest
    exact ⟨c, e'', hfa, hrec.trans hrec', hcd⟩

theorem Builds.bind {y : Except Abort β} {g : β → Except Abort δ} (h : e.Builds x y R)
    (hf : ∀ a b e', e.Records [] e' → R e'.graph a b → e'.Simulates (f a) (g b) as R') :
    e.Simulates (x >>= f) (y >>= g) as R' := by
  cases y with
  | error err =>
    obtain ⟨e', hx⟩ := h
    refine ⟨e', ?_⟩
    change EStateM.bind x f e = _
    unfold EStateM.bind
    rw [hx]
  | ok b => exact h.step fun a e' => hf a b e'

theorem Builds.bind₂ {α' β' : Type} {x' : Emit α'} {y : Except Abort β} {y' : Except Abort β'}
    {S : Graph → α' → β' → Prop} {f : α → α' → Emit γ} {g : β → β' → Except Abort δ}
    (h : e.Builds x y R) (hmono : ∀ {G G' : Graph} {a b}, R G a b → G ≤ G' → R G' a b)
    (h' : ∀ e', e.Records [] e' → e'.Builds x' y' S)
    (hf : ∀ {e' : Emitter} {a a' b b'}, R e'.graph a b → S e'.graph a' b' →
      e'.Simulates (f a a') (g b b') as R') :
    e.Simulates (do f (← x) (← x')) (do g (← y) (← y')) as R' := by
  refine h.bind fun a b e₁ h₁ ha => ?_
  refine (h' e₁ h₁).bind fun a' b' e₂ h₂ ha' => ?_
  exact hf (hmono ha h₂.graph) ha'

theorem Builds.singleton {x : Emit NodeId} {y : Expr} (h : e.Builds x (.ok y) Graph.Denotes) :
    e.Builds (do return [← x]) (.ok [y]) Graph.DenoteAll :=
  h.step fun _ _ _ hy => Builds.pure (.cons hy .nil)

end Bind

theorem Asserts.seq {x x' : Emit Unit} {as : List (Assertion Expr)}
    {y : Except Abort (List (Assertion Expr))} (h : e.Asserts x (.ok as))
    (hx' : ∀ e', e.Records as e' → e'.Asserts x' y) : e.Asserts (do x; x') (y.map (as ++ ·)) := by
  obtain ⟨a, e', hx, hrec, -⟩ := h
  have hrest := hx' e' hrec
  have hbind : (do x; x') e = x' e' := by
    change EStateM.bind x (fun _ => x') e = _
    unfold EStateM.bind
    rw [hx]
  cases y with
  | error err =>
    obtain ⟨e'', hx'⟩ := hrest
    exact ⟨e'', hbind.trans hx'⟩
  | ok bs =>
    obtain ⟨a', e'', hx', hrec', -⟩ := hrest
    exact ⟨a', e'', hbind.trans hx', hrec.trans hrec', trivial⟩

theorem builds_agree {x : Except Abort α} {y : Except Abort β} (h : Agree (R e.graph) x y) :
    e.Builds (liftM x) y R := by
  cases h with
  | error err => exact ⟨e, rfl⟩
  | ok hab => exact ⟨_, e, rfl, .refl e, hab⟩

theorem builds_lift (e : Emitter) (y : Except Abort α) :
    e.Builds (liftM y) y fun _ a b => a = b :=
  builds_agree (.refl y)

theorem asserts_forM {f : α → Emit Unit} {as : List α} {bs : List (Assertion Expr)}
    (h : List.Forall₂
      (fun a b => ∀ e' : Emitter, e.graph ≤ e'.graph → e'.Asserts (f a) (.ok [b])) as bs) :
    e.Asserts (as.forM f) (.ok bs) := by
  induction as generalizing e bs with
  | nil =>
    cases h
    exact .nothing e
  | cons a as ih =>
    cases h with
    | cons ha has =>
      refine (ha e (Graph.le_refl _)).seq (y := .ok _) fun e₁ h₁ => ?_
      exact ih (has.imp fun b x hb e' hle => hb e' (Graph.le_trans h₁.graph hle))

end Simulation

section Calls

variable {e : Emitter}

theorem records_push (e : Emitter) {node : Node} (h : ∀ a ∈ node.operands, a < e.graph.size) :
    ∃ e', push node e = .ok e.graph.size e' ∧ e.Records [] e' ∧ e'.graph = e.graph.push node h := by
  refine ⟨_, dif_pos h, ?_, rfl⟩
  exact ⟨rfl, rfl, e.graph.le_push h, ⟨[], (List.append_nil _).symm, .nil⟩,
    ⟨[], (List.append_nil _).symm, .nil⟩, (List.append_nil _).symm, by
      simp [Assertion.Linked, Assertion.links]⟩

theorem builds_push {node : Node} {x : Expr} (h : ∀ a ∈ node.operands, a < e.graph.size)
    (hx : ∀ (g : Graph) (id : NodeId), e.graph ≤ g → g.nodes[id]? = some node → g.Denotes id x) :
    e.Builds (push node) (.ok x) Graph.Denotes := by
  obtain ⟨e', hpush, hrec, hgraph⟩ := e.records_push h
  refine ⟨_, e', hpush, hrec, hx e'.graph _ hrec.graph ?_⟩
  rw [hgraph]
  exact e.graph.getElem?_push_size h

variable {a b : NodeId} {x y : Expr}

theorem builds_const (c : Native) : e.Builds (const c) (.ok (Arith.const c)) Graph.Denotes :=
  builds_push (by simp [Node.operands]) fun _ _ _ h => .const h

theorem builds_add (ha : e.graph.Denotes a x) (hb : e.graph.Denotes b y) :
    e.Builds (add a b) (.ok (Arith.add x y)) Graph.Denotes :=
  builds_push (by simpa [Node.operands] using ⟨ha.lt_size, hb.lt_size⟩)
    fun _ _ hle h => .sum h (ha.mono hle) (hb.mono hle)

theorem builds_sub (ha : e.graph.Denotes a x) (hb : e.graph.Denotes b y) :
    e.Builds (sub a b) (.ok (Arith.sub x y)) Graph.Denotes :=
  builds_push (by simpa [Node.operands] using ⟨ha.lt_size, hb.lt_size⟩)
    fun _ _ hle h => .difference h (ha.mono hle) (hb.mono hle)

theorem builds_neg (ha : e.graph.Denotes a x) :
    e.Builds (neg a) (.ok (Arith.neg x)) Graph.Denotes :=
  builds_push (by simpa [Node.operands] using ha.lt_size) fun _ _ hle h => .negation h (ha.mono hle)

theorem builds_mul (ha : e.graph.Denotes a x) (hb : e.graph.Denotes b y) :
    e.Builds (mul a b) (.ok (Arith.mul x y)) Graph.Denotes :=
  builds_push (by simpa [Node.operands] using ⟨ha.lt_size, hb.lt_size⟩)
    fun _ _ hle h => .product h (ha.mono hle) (hb.mono hle)

section Cells

theorem denotes_cell {i : Nat} (hi : i < e.numCells) :
    e.graph.Denotes i (.cell (e.layout.cell i)) :=
  .cell (e.cells_eq i hi)

theorem builds_cell (e : Emitter) (i : Nat) : e.Builds (cell i) (e.cells.get i) Graph.Denotes := by
  have hget : e.cells.get i = _ :=
    CellValues.get_ofFn (fun i => Expr.cell (e.layout.cell i)) e.numCells i
  rw [hget]
  by_cases hi : i < e.numCells
  · rw [if_pos hi]
    exact ⟨i, e, if_pos hi, .refl e, denotes_cell hi⟩
  · exact .throw (if_neg hi) ⟨e, if_neg hi⟩

theorem builds_slice (e : Emitter) (s : CellSlice) :
    e.Builds (slice s) (e.cells.slice s) Graph.DenoteAll := by
  have hslice : e.cells.slice s = _ :=
    CellValues.slice_ofFn (fun i => Expr.cell (e.layout.cell i)) e.numCells s
  rw [hslice]
  by_cases hs : s.stop ≤ e.numCells
  · rw [if_pos hs]
    refine ⟨s.indices, e, if_pos hs, .refl e, ?_⟩
    rw [Graph.DenoteAll, List.forall₂_map_right_iff, List.forall₂_same]
    exact fun i hi => denotes_cell (Nat.lt_of_lt_of_le (CellSlice.mem_indices.mp hi).2 hs)
  · exact .throw (if_neg hs) ⟨e, if_neg hs⟩

theorem builds_cells (e : Emitter) (start : α → Nat) (rs : List α) :
    e.Builds (rs.mapM fun r => cell (start r)) (rs.mapM fun r => e.cells.get (start r))
      Graph.DenoteAll := by
  induction rs generalizing e with
  | nil => exact Builds.pure .nil
  | cons r rs ih =>
    rw [List.mapM_cons, List.mapM_cons]
    refine (builds_cell e (start r)).bind fun id x e₁ h₁ hid => ?_
    rw [← h₁.cells]
    refine (ih e₁).bind fun ids xs e₂ h₂ hids => ?_
    exact Builds.pure (.cons (hid.mono h₂.graph) hids)

end Cells

theorem asserts_constraint (ha : e.graph.Denotes a x) :
    e.Asserts (constraint a) (.ok [.vanishes x]) := by
  refine ⟨(), _, dif_pos ha.lt_size, ?_, trivial⟩
  refine ⟨rfl, rfl, Graph.le_refl _, ⟨[a], Array.toList_push, .cons ha .nil⟩,
    ⟨[], (List.append_nil _).symm, .nil⟩, (List.append_nil _).symm, ?_⟩
  simp [Assertion.Linked, Assertion.links]

theorem asserts_lookup (table : LookupTable) {ids : List NodeId} {xs : List Expr}
    (h : e.graph.DenoteAll ids xs) : e.Asserts (lookup table ids) (.ok [.lookup table xs]) := by
  refine ⟨(), _, dif_pos h.lt_size, ?_, trivial⟩
  refine ⟨rfl, rfl, Graph.le_refl _, ⟨[], (List.append_nil _).symm, .nil⟩,
    ⟨[(table, ids)], Array.toList_push, .cons ⟨rfl, h⟩ .nil⟩, (List.append_nil _).symm, ?_⟩
  simp [Assertion.Linked, Assertion.links]

section Link

theorem linkCells_eq_ok (e : Emitter) {is js : List Nat} (h : is.length = js.length) :
    linkCells is js e = .ok () { e with
      copies := e.copies ++
        ((is.zip js).map fun (i, j) => (e.layout.cell i, e.layout.cell j)).toArray } := by
  induction is generalizing js e with
  | nil =>
    obtain rfl := List.length_eq_zero_iff.mp h.symm
    simp [linkCells]
    rfl
  | cons i is ih =>
    cases js with
    | nil => contradiction
    | cons j js =>
      rw [linkCells, run_bind_eq_ok_iff]
      refine ⟨(), _, rfl, ?_⟩
      rw [ih _ (Nat.succ.inj h)]
      simp

theorem exists_linkCells_error (e : Emitter) {is js : List Nat} (h : is.length ≠ js.length) :
    ∃ e', linkCells is js e = .error .unequalLengths e' := by
  induction is generalizing js e with
  | nil =>
    cases js with
    | nil => contradiction
    | cons j js => exact ⟨e, rfl⟩
  | cons i is ih =>
    cases js with
    | nil => exact ⟨e, rfl⟩
    | cons j js =>
      exact ih { e with copies := e.copies.push (e.layout.cell i, e.layout.cell j) }
        (fun hlen => h (congrArg (· + 1) hlen))

theorem asserts_link (e : Emitter) (s t : CellSlice) :
    e.Asserts (link s t) (Assertion.checked [.link s t]) := by
  by_cases h : s.len = t.len
  · have hlinked : Assertion.Linked [(.link s t : Assertion Expr)] := by
      simpa [Assertion.Linked, Assertion.links] using h
    rw [Assertion.checked, if_pos hlinked]
    refine ⟨(), _, e.linkCells_eq_ok (by simpa using h), ?_, trivial⟩
    refine ⟨rfl, rfl, Graph.le_refl _, ⟨[], (List.append_nil _).symm, .nil⟩,
      ⟨[], (List.append_nil _).symm, .nil⟩, ?_, hlinked⟩
    simp [Assertion.copies, Assertion.links]
  · refine .throw (if_neg ?_) (e.exists_linkCells_error (by simpa using h))
    simpa [Assertion.Linked, Assertion.links] using h

theorem Asserts.checked {x : Emit Unit} {y : Except Abort (List (Assertion Expr))}
    (h : e.Asserts x y) : e.Asserts x (y >>= Assertion.checked) := by
  cases y with
  | error err => exact h
  | ok as =>
    obtain ⟨a, e', hx, hrec, -⟩ := h
    have hlinked : Assertion.Linked as := hrec.linked
    change e.Asserts x (Assertion.checked as)
    rw [Assertion.checked, if_pos hlinked]
    exact ⟨a, e', hx, hrec, trivial⟩

end Link

end Calls

section Flush

theorem foldl_addLookup (lookups : List (LookupTable × List Expr)) (c : Circuit) :
    lookups.foldl (fun c lookup => c.addLookup lookup.1 lookup.2) c =
      { c with lookups := c.lookups ++ lookups.toArray } := by
  induction lookups generalizing c with
  | nil => simp
  | cons lookup lookups ih =>
    rw [List.foldl_cons, ih]
    simp [Circuit.addLookup]

theorem foldl_addCopy (copies : List (Cell × Cell)) (c : Circuit) :
    copies.foldl (fun c copy => c.addCopy copy.1 copy.2) c =
      { c with copies := c.copies ++ copies.toArray } := by
  induction copies generalizing c with
  | nil => simp
  | cons copy copies ih =>
    rw [List.foldl_cons, ih]
    simp [Circuit.addCopy]

theorem readLookups_eq {g : Graph} {ls : List (LookupTable × List NodeId)}
    {ls' : List (LookupTable × List Expr)} (hls : List.Forall₂ (DenotesLookup g) ls ls')
    (h : ∀ lookup ∈ ls, ∀ id ∈ lookup.2, id < g.size) (memo : Graph.Memo g) :
    readLookups g ls h memo = ls' := by
  induction hls generalizing memo with
  | nil => rfl
  | @cons l l' ls ls' hl _ ih =>
    obtain ⟨table, ids⟩ := l
    obtain ⟨table', xs⟩ := l'
    obtain ⟨rfl, hids⟩ := hl
    have hxs := (g.denoteAll_expressions ids (h _ List.mem_cons_self) memo).unique hids
    rw [readLookups]
    dsimp only
    rw [hxs, ih]

theorem reset_eq (e : Emitter) : e.reset = .empty e.layout e.numCells := by
  have hgraph : e.graph.take e.numCells = .ofCells e.layout e.numCells := by
    apply Graph.ext
    intro id
    by_cases hid : id < e.numCells
    · rw [e.graph.getElem?_take_of_lt hid, e.cells_eq id hid]
      simp [Graph.ofCells, hid]
    · rw [Array.getElem?_eq_none, Array.getElem?_eq_none]
      · simpa [Graph.ofCells] using hid
      · rw [Graph.take, Array.size_shrink]
        exact Nat.le_trans (Nat.min_le_left _ _) (Nat.not_lt.mp hid)
  unfold reset empty
  simp only [hgraph]

theorem Records.flush {l : Layout} {n : Nat} {as : List (Assertion Expr)} {e : Emitter}
    (h : (empty l n).Records as e) (c : Circuit) :
    e.flush c = (if (Assertion.vanishing as).isEmpty then none else some c.gates.size, .empty l n,
      c ++ .ofAssertions l as) := by
  obtain ⟨ids, hids, hden⟩ := h.constraints
  obtain ⟨ls, hls, hlookups⟩ := h.lookups
  have hcopies : e.copies.toList = Assertion.copies l as := h.copies
  change e.constraints.toList = ids at hids
  change e.lookups.toList = ls at hls
  subst hids hls
  have hconstraints := (e.graph.denoteAll_expressions e.constraints.toList
    (fun id hid => e.constraints_lt id (Array.mem_toList_iff.mp hid))
    (.empty e.graph e.numCells)).unique hden
  unfold Emitter.flush
  dsimp only
  rw [hconstraints, readLookups_eq hlookups, foldl_addLookup, ← Array.foldl_toList, foldl_addCopy,
    hcopies, reset_eq, h.layout, h.numCells]
  refine congrArg (Prod.mk _ ∘ Prod.mk _) ?_
  change _ = Circuit.mk (c.gates ++ if _ then _ else _) _ _
  cases (Assertion.vanishing as).isEmpty with
  | true => simp [Circuit.ofAssertions]
  | false => simp [Circuit.ofAssertions, Circuit.addGate]

end Flush

end Emitter

end ForeignCurve
