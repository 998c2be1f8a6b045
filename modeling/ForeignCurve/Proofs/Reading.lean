import ForeignCurve.Proofs.Gadget.Point

namespace ForeignCurve

theorem mapM_eq_some {α β : Type} {f : α → Option β} {as : List α} {bs : List β}
    (h : as.map f = bs.map some) : as.mapM f = some bs := by
  induction as generalizing bs with
  | nil =>
    cases bs with
    | nil => rfl
    | cons b bs => contradiction
  | cons a as ih =>
    cases bs with
    | nil => contradiction
    | cons b bs =>
      obtain ⟨hhead, htail⟩ := List.cons.inj h
      rw [List.mapM_cons, hhead, ih htail]
      rfl

namespace Table

variable {t : Table Native} {l : Layout} {P : FieldParams}

def values? (t : Table Native) (l : Layout) (s : CellSlice) : Option (List Native) :=
  s.indices.mapM fun i => t.get? (l.cell i)

def number? (t : Table Native) (l : Layout) (r : FieldRegister P) : Option Nat :=
  (t.values? l r.slice).map P.decode

def residue? (t : Table Native) (l : Layout) (r : FieldRegister P) : Option Nat :=
  (t.number? l r).map (· % P.modulus)

def point? (t : Table Native) (l : Layout) (r : PointRegister P) : Option Point := do
  let x ← t.number? l r.x
  let y ← t.number? l r.y
  return ⟨x, y⟩

def HoldsNumber (t : Table Native) (l : Layout) (r : FieldRegister P) (N : Nat) : Prop :=
  ∃ limbs, P.encode N = .ok limbs ∧ t.values? l r.slice = some limbs

structure HoldsPoint (t : Table Native) (l : Layout) (r : PointRegister P) (p : Point) : Prop where
  x : t.HoldsNumber l r.x p.x
  y : t.HoldsNumber l r.y p.y

theorem values?_eq_some {n : Nat} {s : CellSlice} {xs : List Native}
    (h : (t.store l).Reads n s xs) : t.values? l s = some xs :=
  mapM_eq_some (Store.reads_iff.mp h).2

end Table

def Trace.HoldsNumber (t : Trace) {P : FieldParams} (r : FieldRegister P) (N : Nat) : Prop :=
  ∃ limbs, P.encode N = .ok limbs ∧ t.readSlice r.slice = .ok limbs

namespace Scenario

variable {w : Scenario} {P : FieldParams}

structure Numbers (w : Scenario) (r : PointRegister P) (p : Point) : Prop where
  x : w.Number r.x p.x
  y : w.Number r.y p.y

theorem Numbers.at {r : PointRegister P} {p : Point} (h : w.Numbers r p)
    (hlt : w.Honest → p.Reduced P.modulus) : w.At r (.ofPoint P.modulus p) :=
  ⟨.of_number h.x fun hw => (hlt hw).x, .of_number h.y fun hw => (hlt hw).y⟩

theorem At.numbers {r : PointRegister P} {X : Coordinates (ZMod P.modulus)} (h : w.At r X)
    (hw : w.Honest) : w.Numbers r X.toPoint :=
  ⟨h.x.number hw, h.y.number hw⟩

section Table

variable [P.HasHeadroom] {t : Table Native} {l : Layout} (hw : w.store = t.store l)

include hw

theorem Number.holdsNumber {r : FieldRegister P} {N : Nat} (h : w.Number r N) :
    t.HoldsNumber l r N := by
  refine ⟨P.digits N, P.encode_eq_digits N, ?_⟩
  apply Table.values?_eq_some (n := w.numCells)
  rw [← hw]
  exact h.reads

theorem Number.number? {r : FieldRegister P} {N : Nat} (h : w.Number r N) :
    t.number? l r = some N := by
  obtain ⟨limbs, hlimbs, hvalues⟩ := h.holdsNumber hw
  rw [P.encode_eq_digits N] at hlimbs
  cases hlimbs
  rw [Table.number?, hvalues, Option.map_some, FieldParams.decode_digits_of_lt h.lt]

theorem Residue.residue? [NeZero P.modulus] {r : FieldRegister P} {x : ZMod P.modulus}
    (h : w.Residue r x) : t.residue? l r = some x.val := by
  obtain ⟨N, hN, rfl, -⟩ := h
  rw [Table.residue?, hN.number? hw, Option.map_some, ZMod.val_natCast]

theorem Residue.indicator [Fact P.modulus.Prime] {r : FieldRegister P} {c d : Prop} [Decidable c]
    [Decidable d] (h : w.Residue r (if c then 1 else 0)) (hcd : c ↔ d) :
    t.residue? l r = some (if d then 1 else 0) := by
  rw [h.residue? hw, apply_ite ZMod.val, ZMod.val_one, ZMod.val_zero, if_congr hcd rfl rfl]

theorem Numbers.holdsPoint {r : PointRegister P} {p : Point} (h : w.Numbers r p) :
    t.HoldsPoint l r p :=
  ⟨h.x.holdsNumber hw, h.y.holdsNumber hw⟩

theorem At.point? [NeZero P.modulus] {r : PointRegister P} {X : Coordinates (ZMod P.modulus)}
    (h : w.At r X) : (t.point? l r).map (·.reduce P.modulus) = some X.toPoint := by
  obtain ⟨⟨x, hx, hX, -⟩, y, hy, hY, -⟩ := h
  have hpoint : t.point? l r = some ⟨x, y⟩ := by
    rw [Table.point?, hx.number? hw, hy.number? hw]
    rfl
  have hcoordinates : Coordinates.ofPoint P.modulus ⟨x, y⟩ = X := Coordinates.ext hX hY
  rw [hpoint, Option.map_some, ← hcoordinates, Coordinates.toPoint_ofPoint]

theorem Numbers.point? {r : PointRegister P} {p : Point} (h : w.Numbers r p) :
    t.point? l r = some p := by
  rw [Table.point?, h.x.number? hw, h.y.number? hw]
  rfl

end Table

section Trace

variable [P.HasHeadroom] {t : Trace} (hstore : w.store = t.store) (hnum : w.numCells = t.numCells)

include hstore hnum

theorem Number.holdsNumber_trace {r : FieldRegister P} {N : Nat} (h : w.Number r N) :
    t.HoldsNumber r N := by
  refine ⟨P.digits N, P.encode_eq_digits N, ?_⟩
  rw [Trace.readSlice_eq_ok_iff, ← hstore, ← hnum]
  exact h.reads

theorem Numbers.readPoint {r : PointRegister P} {p : Point} (h : w.Numbers r p) :
    t.readPoint r = .ok p := by
  have hx := h.x.reads
  have hy := h.y.reads
  unfold Reads at hx hy
  rw [hstore, hnum] at hx hy
  rw [t.readPoint_eq_ok r hx hy, FieldParams.decode_digits_of_lt h.x.lt,
    FieldParams.decode_digits_of_lt h.y.lt]

end Trace

end Scenario

end ForeignCurve
