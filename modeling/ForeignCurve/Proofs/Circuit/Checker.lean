import ForeignCurve.Proofs.Circuit.Rows
import ForeignCurve.Proofs.Table

/-!
What the checker of a circuit reports. It goes over the constraints, then the lookups, then the copies,
and has one verdict on each: a cell that is missing, a violation, or none. A verdict on assigned cells is
final, whatever else is written to the table.
-/

namespace ForeignCurve

namespace Table

variable {α β γ δ : Type} {t t' : Table α}

def missing? (t : Table α) (cells : List Cell) : Option Cell :=
  cells.find? fun c => (t.get? c).isNone

theorem missing?_eq_none_iff {cells : List Cell} :
    t.missing? cells = none ↔ ∀ c ∈ cells, (t.get? c).isSome := by
  simp [missing?, Option.ne_none_iff_isSome]

def demand (t : Table α) (cells : List Cell) (x : β) : Except Cell β :=
  match t.missing? cells with
  | some c => .error c
  | none => .ok x

theorem demand_map (as : List Cell) (x : β) (f : β → γ) :
    (do return f (← t.demand as x)) = t.demand as (f x) := by
  unfold demand
  cases t.missing? as <;> rfl

theorem demand_map₂ (as bs : List Cell) (x : β) (y : γ) (f : β → γ → δ) :
    (do return f (← t.demand as x) (← t.demand bs y)) = t.demand (as ++ bs) (f x y) := by
  unfold demand missing?
  rw [List.find?_append]
  cases as.find? fun c => (t.get? c).isNone with
  | some c => rfl
  | none => cases bs.find? fun c => (t.get? c).isNone <;> rfl

def value (t : Table Native) (c : Cell) : Native :=
  (t.get? c).getD 0

section Keeps

def Keeps (t t' : Table α) : Prop :=
  ∀ c x, t.get? c = some x → t'.get? c = some x

theorem keeps_write (column row : Nat) (x : α) :
    match write column row x t with
    | .ok _ t' | .error _ t' => t.Keeps t' := by
  cases hget : t.get? (t.layout.wrap column row) with
  | some y =>
    rw [write_of_assigned hget]
    exact fun _ _ => id
  | none =>
    obtain ⟨t', hwrite, hwrote⟩ := write_of_unassigned hget x
    rw [hwrite]
    intro c y hy
    rw [hwrote.get?, if_neg, hy]
    rintro rfl
    rw [hget] at hy
    contradiction

theorem keeps_writeAll (ws : List (Writing α)) (t : Table α) : t.Keeps (t.writeAll ws).2 := by
  induction ws generalizing t with
  | nil => exact fun _ _ => id
  | cons w ws ih =>
    have hstep := keeps_write (t := t) w.column w.row w.value
    unfold writeAll
    generalize write w.column w.row w.value t = r at hstep ⊢
    cases r with
    | ok u t₁ => exact fun c x hx => ih t₁ c x (hstep c x hx)
    | error f t₁ => exact fun c x hx => ih t₁ c x (hstep c x hx)

theorem Keeps.missing? (h : t.Keeps t') {cells : List Cell} (hcells : t.missing? cells = none) :
    t'.missing? cells = none := by
  rw [missing?_eq_none_iff] at hcells ⊢
  intro c hc
  obtain ⟨x, hx⟩ := Option.isSome_iff_exists.mp (hcells c hc)
  rw [h c x hx]
  rfl

theorem Keeps.value {t t' : Table Native} (h : t.Keeps t') {cells : List Cell}
    (hcells : t.missing? cells = none) {c : Cell} (hc : c ∈ cells) : t'.value c = t.value c := by
  obtain ⟨x, hx⟩ := Option.isSome_iff_exists.mp (missing?_eq_none_iff.mp hcells c hc)
  unfold Table.value
  rw [h c x hx, hx]

end Keeps

end Table

namespace Expr

variable {t : Table Native} {v v' : Cell → Native}

def denote (v : Cell → Native) : Expr → Native
  | const value => value
  | cell c => v c
  | sum a b => a.denote v + b.denote v
  | difference a b => a.denote v - b.denote v
  | negation a => -a.denote v
  | product a b => a.denote v * b.denote v

theorem denote_congr {e : Expr} (h : ∀ c ∈ e.cells, v c = v' c) : e.denote v = e.denote v' := by
  induction e with
  | const value => rfl
  | cell c => exact h c (List.mem_singleton_self c)
  | negation a ih => rw [denote, denote, ih h]
  | sum a b iha ihb | difference a b iha ihb | product a b iha ihb =>
    rw [cells, List.forall_mem_append] at h
    rw [denote, denote, iha h.1, ihb h.2]

theorem evaluate_eq_demand (t : Table Native) (e : Expr) :
    e.evaluate t = t.demand e.cells (e.denote t.value) := by
  induction e with
  | const value => rfl
  | cell c =>
    unfold evaluate Table.demand Table.missing? cells denote Table.value
    cases h : t.get? c with
    | some x => simp [h]
    | none => simp [h]
  | negation a ih =>
    rw [evaluate, ih]
    exact Table.demand_map _ _ fun x => -x
  | sum a b iha ihb =>
    rw [evaluate, iha, ihb]
    exact Table.demand_map₂ _ _ _ _ fun x y => x + y
  | difference a b iha ihb =>
    rw [evaluate, iha, ihb]
    exact Table.demand_map₂ _ _ _ _ fun x y => x - y
  | product a b iha ihb =>
    rw [evaluate, iha, ihb]
    exact Table.demand_map₂ _ _ _ _ fun x y => x * y

theorem mapM_evaluate_eq_demand (t : Table Native) (es : List Expr) :
    es.mapM (·.evaluate t) = t.demand (es.flatMap cells) (es.map (denote t.value)) := by
  induction es with
  | nil => rfl
  | cons e es ih =>
    rw [List.mapM_cons, evaluate_eq_demand, ih]
    exact Table.demand_map₂ _ _ _ _ List.cons

end Expr

def LookupTable.IsRow : LookupTable → List Nat → Prop
  | range bits, [value] => value < 2 ^ bits
  | range _, _ => False

instance : ∀ (table : LookupTable) (values : List Nat), Decidable (table.IsRow values)
  | .range bits, [value] => inferInstanceAs (Decidable (value < 2 ^ bits))
  | .range _, [] | .range _, _ :: _ :: _ => inferInstanceAs (Decidable False)

theorem LookupTable.contains_iff_isRow (table : LookupTable) (xs : List Native) :
    table.contains (xs.map (·.val)) ↔ table.IsRow (xs.map (·.val)) := by
  obtain ⟨bits⟩ := table
  match xs with
  | [] | _ :: _ :: _ => simp [contains, IsRow]
  | [x] =>
    simp only [List.map_cons, List.map_nil, contains, IsRow, decide_eq_true_eq]
    -- a table of at least 64 bits has room for every canonical value
    constructor
    · rintro (hbits | hx)
      · have hx : x.val < 2 ^ 64 := Nat.lt_trans x.isLt (by decide)
        exact Nat.lt_of_lt_of_le hx (Nat.pow_le_pow_right (by decide) hbits)
      · exact hx
    · exact .inr

def Violation.isVerdict : Violation → Bool
  | .unassigned _ => false
  | _ => true

namespace Circuit

/-- One thing that the checker reports on, with what it is called there. -/
inductive Item where
  | constraint (gate index : Nat) (e : Expr)
  | lookup (index : Nat) (table : LookupTable) (es : List Expr)
  | copy (a b : Cell)

namespace Item

variable {t t' : Table Native} {item : Item}

def cells : Item → List Cell
  | constraint _ _ e => e.cells
  | lookup _ _ es => es.flatMap Expr.cells
  | copy a b => [a, b]

def Passes (v : Cell → Native) : Item → Prop
  | constraint _ _ e => e.denote v = 0
  | lookup _ table es => table.IsRow ((es.map (Expr.denote v)).map (·.val))
  | copy a b => v a = v b

instance (v : Cell → Native) : ∀ item : Item, Decidable (item.Passes v)
  | constraint _ _ e => inferInstanceAs (Decidable (e.denote v = 0))
  | lookup _ table es => inferInstanceAs (Decidable (table.IsRow ((es.map (Expr.denote v)).map (·.val))))
  | copy a b => inferInstanceAs (Decidable (v a = v b))

def violation : Item → Violation
  | constraint gate index _ => .gate gate index
  | lookup index table _ => .lookup table index
  | copy a b => .copy a b

def report (t : Table Native) (item : Item) : Option Violation :=
  match t.missing? item.cells with
  | some c => some (.unassigned c)
  | none => if item.Passes t.value then none else some item.violation

theorem isVerdict_violation (item : Item) : item.violation.isVerdict := by
  cases item <;> rfl

theorem report_eq_some_of_isVerdict {v : Violation} (h : item.report t = some v) (hv : v.isVerdict) :
    t.missing? item.cells = none ∧ v = item.violation := by
  unfold report at h
  cases hcells : t.missing? item.cells with
  | some c =>
    rw [hcells] at h
    cases h
    contradiction
  | none =>
    simp only [hcells] at h
    split at h
    · contradiction
    · cases h
      exact ⟨rfl, rfl⟩

theorem passes_congr {v v' : Cell → Native} (h : ∀ c ∈ item.cells, v c = v' c) :
    item.Passes v ↔ item.Passes v' := by
  cases item with
  | constraint gate index e => rw [Passes, Passes, Expr.denote_congr h]
  | lookup index table es =>
    have hes : es.map (Expr.denote v) = es.map (Expr.denote v') :=
      List.map_congr_left fun e he =>
        Expr.denote_congr fun c hc => h c (List.mem_flatMap.mpr ⟨e, he, hc⟩)
    rw [Passes, Passes, hes]
  | copy a b =>
    rw [Passes, Passes, h a (by simp [cells]), h b (by simp [cells])]

theorem report_eq_none_iff :
    item.report t = none ↔ (∀ c ∈ item.cells, (t.get? c).isSome) ∧ item.Passes t.value := by
  rw [← Table.missing?_eq_none_iff]
  unfold report
  cases t.missing? item.cells with
  | some c => simp
  | none => simp

theorem report_of_keeps (h : t.Keeps t') (hcells : t.missing? item.cells = none) :
    item.report t' = item.report t := by
  have hpasses : item.Passes t'.value ↔ item.Passes t.value :=
    passes_congr fun c hc => h.value hcells hc
  unfold report
  rw [hcells, h.missing? hcells]
  simp only [hpasses]

theorem report_eq_none_of_keeps (h : t.Keeps t') (hnone : item.report t = none) :
    item.report t' = none := by
  have hcells := Table.missing?_eq_none_iff.mpr (report_eq_none_iff.mp hnone).1
  rw [report_of_keeps h hcells, hnone]

end Item

section Reports

variable {t t' : Table Native}

theorem constraintViolation_eq_report (t : Table Native) (gate index : Nat) (e : Expr) :
    constraintViolation t gate index e = (Item.constraint gate index e).report t := by
  unfold constraintViolation Item.report
  rw [Expr.evaluate_eq_demand, Table.demand]
  simp only [Item.cells]
  cases t.missing? e.cells with
  | some c => rfl
  | none => rfl

theorem lookupViolation_eq_report (t : Table Native) (index : Nat) (table : LookupTable)
    (es : List Expr) : lookupViolation t index table es = (Item.lookup index table es).report t := by
  unfold lookupViolation Item.report
  rw [Expr.mapM_evaluate_eq_demand, Table.demand]
  simp only [Item.cells]
  cases t.missing? (es.flatMap Expr.cells) with
  | some c => rfl
  | none => exact if_congr (table.contains_iff_isRow _) rfl rfl

theorem copyViolation_eq_report (t : Table Native) (a b : Cell) :
    copyViolation t a b = (Item.copy a b).report t := by
  unfold copyViolation Item.report Table.missing?
  cases ha : t.get? a with
  | none => simp [Item.cells, ha]
  | some x =>
    cases hb : t.get? b with
    | none => simp [Item.cells, ha, hb]
    | some y => simp [Item.cells, Item.Passes, Item.violation, Table.value, ha, hb]

def items (c : Circuit) : List Item :=
  c.gates.toList.zipIdx.flatMap (fun (gate, i) => gate.zipIdx.map fun (e, j) => .constraint i j e) ++
    c.lookups.toList.zipIdx.map (fun ((table, es), i) => .lookup i table es) ++
    c.copies.toList.map fun (a, b) => .copy a b

theorem violations_eq_filterMap (c : Circuit) (t : Table Native) :
    c.violations t = c.items.filterMap (Item.report t) := by
  have hgates : c.gates.toList.zipIdx.flatMap (fun (gate, i) => gateViolations t i gate) =
      (c.gates.toList.zipIdx.flatMap fun (gate, i) =>
        gate.zipIdx.map fun (e, j) => Item.constraint i j e).filterMap (Item.report t) := by
    rw [List.filterMap_flatMap]
    congr 1
    funext ⟨gate, i⟩
    rw [List.filterMap_map]
    change gate.zipIdx.filterMap _ = _
    congr 1
    funext ⟨e, j⟩
    exact constraintViolation_eq_report t i j e
  unfold violations items
  rw [List.filterMap_append, List.filterMap_append, hgates, List.filterMap_map, List.filterMap_map]
  congr 2
  · congr 1
    funext ⟨⟨table, es⟩, i⟩
    exact lookupViolation_eq_report t i table es
  · funext ⟨a, b⟩
    exact copyViolation_eq_report t a b

end Reports

section Names

variable {c : Circuit}

theorem constraint_mem_items_iff {gate index : Nat} {e : Expr} :
    .constraint gate index e ∈ c.items ↔ ∃ es, c.gates[gate]? = some es ∧ es[index]? = some e := by
  simp [items, List.mem_zipIdx_iff_getElem?]

theorem lookup_mem_items_iff {index : Nat} {table : LookupTable} {es : List Expr} :
    .lookup index table es ∈ c.items ↔ c.lookups[index]? = some (table, es) := by
  simp [items, List.mem_zipIdx_iff_getElem?]

theorem copy_mem_items_iff {a b : Cell} : .copy a b ∈ c.items ↔ (a, b) ∈ c.copies := by
  simp [items]

theorem eq_of_violation_eq {item item' : Item} (h : item ∈ c.items) (h' : item' ∈ c.items)
    (heq : item.violation = item'.violation) : item = item' := by
  cases item with
  | constraint gate index e =>
    cases item' <;> cases heq
    next e' =>
    rw [constraint_mem_items_iff] at h h'
    grind
  | lookup index table es =>
    cases item' <;> cases heq
    next es' =>
    rw [lookup_mem_items_iff] at h h'
    grind
  | copy a b =>
    cases item' <;> cases heq
    rfl

end Names

section Exactness

variable {c : Circuit} {t : Table Native} {v : Cell → Native}

structure HoldsOn (c : Circuit) (v : Cell → Native) : Prop where
  gates : ∀ gate ∈ c.gates, ∀ e ∈ gate, e.denote v = 0
  lookups : ∀ lookup ∈ c.lookups, lookup.1.IsRow ((lookup.2.map (Expr.denote v)).map (·.val))
  copies : ∀ copy ∈ c.copies, v copy.1 = v copy.2

theorem forall_items_passes_iff : (∀ item ∈ c.items, item.Passes v) ↔ c.HoldsOn v := by
  constructor
  · intro h
    refine ⟨fun gate hgate e he => ?_, fun lookup hlookup => ?_, fun copy hcopy => ?_⟩
    · obtain ⟨i, hi⟩ := Array.mem_iff_getElem?.mp hgate
      obtain ⟨j, hj⟩ := List.mem_iff_getElem?.mp he
      exact h _ (constraint_mem_items_iff.mpr ⟨gate, hi, hj⟩)
    · obtain ⟨i, hi⟩ := Array.mem_iff_getElem?.mp hlookup
      exact h _ (lookup_mem_items_iff.mpr hi)
    · exact h _ (copy_mem_items_iff.mpr hcopy)
  · intro h item hitem
    cases item with
    | constraint gate index e =>
      obtain ⟨es, hes, he⟩ := constraint_mem_items_iff.mp hitem
      exact h.gates es (Array.mem_of_getElem? hes) e (List.mem_of_getElem? he)
    | lookup index table es => exact h.lookups _ (Array.mem_of_getElem? (lookup_mem_items_iff.mp hitem))
    | copy a b => exact h.copies _ (copy_mem_items_iff.mp hitem)

theorem refers_iff_exists_item {cell : Cell} : c.Refers cell ↔ ∃ item ∈ c.items, cell ∈ item.cells := by
  constructor
  · rintro (⟨es, hes, e, he, h⟩ | ⟨lookup, hlookup, e, he, h⟩ | ⟨copy, hcopy, h⟩ | ⟨copy, hcopy, h⟩)
    · obtain ⟨i, hi⟩ := Array.mem_iff_getElem?.mp (Array.mem_toList_iff.mp hes)
      obtain ⟨j, hj⟩ := List.mem_iff_getElem?.mp he
      exact ⟨_, constraint_mem_items_iff.mpr ⟨es, hi, hj⟩, h⟩
    · obtain ⟨i, hi⟩ := Array.mem_iff_getElem?.mp (Array.mem_toList_iff.mp hlookup)
      exact ⟨_, lookup_mem_items_iff.mpr hi, List.mem_flatMap.mpr ⟨e, he, h⟩⟩
    · exact ⟨_, copy_mem_items_iff.mpr (Array.mem_toList_iff.mp hcopy), by simp [Item.cells, h]⟩
    · exact ⟨_, copy_mem_items_iff.mpr (Array.mem_toList_iff.mp hcopy), by simp [Item.cells, h]⟩
  · rintro ⟨item, hitem, h⟩
    cases item with
    | constraint gate index e =>
      obtain ⟨es, hes, he⟩ := constraint_mem_items_iff.mp hitem
      exact .gate es (Array.mem_toList_iff.mpr (Array.mem_of_getElem? hes)) e (List.mem_of_getElem? he) h
    | lookup index table es =>
      have hes := Array.mem_of_getElem? (lookup_mem_items_iff.mp hitem)
      obtain ⟨e, he, h⟩ := List.mem_flatMap.mp h
      exact .lookup _ (Array.mem_toList_iff.mpr hes) e he h
    | copy a b =>
      have hab := Array.mem_toList_iff.mpr (copy_mem_items_iff.mp hitem)
      rw [Item.cells, List.mem_cons, List.mem_singleton] at h
      obtain rfl | rfl := h
      · exact .copyLeft _ hab rfl
      · exact .copyRight _ hab rfl

theorem violations_eq_nil_iff_holdsOn :
    c.violations t = [] ↔ (∀ cell, c.Refers cell → (t.get? cell).isSome) ∧ c.HoldsOn t.value := by
  rw [violations_eq_filterMap, List.filterMap_eq_nil_iff, ← forall_items_passes_iff]
  simp only [Item.report_eq_none_iff, refers_iff_exists_item]
  constructor
  · intro h
    refine ⟨?_, fun item hitem => (h item hitem).2⟩
    rintro cell ⟨item, hitem, hcell⟩
    exact (h item hitem).1 cell hcell
  · rintro ⟨hcells, hpasses⟩ item hitem
    exact ⟨fun cell hcell => hcells cell ⟨item, hitem, hcell⟩, hpasses item hitem⟩

theorem check_eq_error_iff {v : Violation} : c.check t = .error v ↔ (c.violations t).head? = some v := by
  unfold check
  cases c.violations t <;> simp

end Exactness

section Stability

variable {c : Circuit} {t t' : Table Native}

theorem sublist_filterMap_report (h : t.Keeps t') (items : List Item) :
    ((items.filterMap (Item.report t)).filter Violation.isVerdict).Sublist
      (items.filterMap (Item.report t')) := by
  induction items with
  | nil => exact .slnil
  | cons item items ih =>
    have htail : (items.filterMap (Item.report t')).Sublist ((item :: items).filterMap (Item.report t')) :=
      (List.sublist_cons_self item items).filterMap _
    cases hreport : item.report t with
    | none =>
      rw [List.filterMap_cons_none hreport]
      exact ih.trans htail
    | some v =>
      rw [List.filterMap_cons_some hreport]
      by_cases hv : v.isVerdict
      · have hreport' := Item.report_of_keeps h (Item.report_eq_some_of_isVerdict hreport hv).1
        rw [hreport] at hreport'
        rw [List.filter_cons_of_pos hv, List.filterMap_cons_some hreport']
        exact ih.cons_cons v
      · rw [List.filter_cons_of_neg hv]
        exact ih.trans htail

theorem violation_notMem_of_report_eq_none {item : Item} (hitem : item ∈ c.items)
    (h : item.report t = none) : item.violation ∉ c.violations t := by
  rw [violations_eq_filterMap, List.mem_filterMap]
  rintro ⟨item', hitem', hreport⟩
  have hviolation := (Item.report_eq_some_of_isVerdict hreport item.isVerdict_violation).2
  obtain rfl := eq_of_violation_eq hitem hitem' hviolation
  rw [h] at hreport
  contradiction

/--
The checker is exact and its verdicts are final. It has at most one verdict on each constraint, lookup
and copy, in this order, and none at all exactly where all cells are assigned and their values are right.
Nothing that is still written takes a verdict back, or finds one where there was none to find.
-/
theorem check_exact (c : Circuit) (t : Table Native) :
    (c.violations t = [] ↔ (∀ cell, c.Refers cell → (t.get? cell).isSome) ∧ c.HoldsOn t.value) ∧
      (c.check t = .ok () ↔ c.violations t = []) ∧
      (∀ v, c.check t = .error v ↔ (c.violations t).head? = some v) ∧
      c.violations t = c.items.filterMap (Item.report t) ∧
      ∀ ws : List (Writing Native),
        ((c.violations t).filter Violation.isVerdict).Sublist (c.violations (t.writeAll ws).2) ∧
        (∀ item ∈ c.items, item.report t = none → item.violation ∉ c.violations (t.writeAll ws).2) ∧
        (c.check t = .ok () → c.check (t.writeAll ws).2 = .ok ()) := by
  refine ⟨violations_eq_nil_iff_holdsOn, check_eq_ok_iff.trans violations_eq_nil_iff.symm,
    fun _ => check_eq_error_iff, violations_eq_filterMap c t, fun ws => ⟨?_, ?_, ?_⟩⟩
  · rw [violations_eq_filterMap, violations_eq_filterMap]
    exact sublist_filterMap_report (Table.keeps_writeAll ws t) c.items
  · intro item hitem hnone
    exact violation_notMem_of_report_eq_none hitem
      (Item.report_eq_none_of_keeps (Table.keeps_writeAll ws t) hnone)
  · rw [check_eq_ok_iff, check_eq_ok_iff, ← violations_eq_nil_iff, ← violations_eq_nil_iff,
      violations_eq_filterMap, violations_eq_filterMap, List.filterMap_eq_nil_iff, List.filterMap_eq_nil_iff]
    exact fun h item hitem => Item.report_eq_none_of_keeps (Table.keeps_writeAll ws t) (h item hitem)

end Stability

end Circuit

end ForeignCurve
