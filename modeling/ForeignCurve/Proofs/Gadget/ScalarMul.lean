import ForeignCurve.Proofs.Curve.PrimeOrder
import ForeignCurve.Proofs.Gadget.CompleteSum
import ForeignCurve.Proofs.Gadget.Scalar
import ForeignCurve.Proofs.Gadget.Trail
import ForeignCurve.Proofs.Recoding

namespace ForeignCurve

-- the instance for the rest of a gadget is as large as the gadget is long
set_option synthInstance.maxSize 1000000

namespace CurveParams

variable (E : CurveParams) [hE : E.PrimeOrder]

instance : E.Scalable :=
  scalable_of_three_le (Nat.le_trans (by decide) hE.five_le)

theorem foldedScalar_le {s : Nat} (h : s < E.groupOrder) :
    E.foldedScalar s ≤ (E.groupOrder - 1) / 2 := by
  have hodd := odd_order (E := E)
  have hle := Scenario.fold_le hodd h
  simp only [decide_eq_true_eq] at hle
  exact hle

theorem foldedScalar_zsmul {s : Nat} (h : s < E.groupOrder) (A : E.Group) :
    (E.foldedScalar s : Int) • (if decide ((E.groupOrder - 1) / 2 < s) then -A else A) = s • A := by
  unfold foldedScalar
  by_cases hhalf : (E.groupOrder - 1) / 2 < s
  · rw [if_pos hhalf, decide_eq_true hhalf, if_pos rfl, natCast_zsmul]
    apply neg_injective
    rw [neg_nsmul, neg_neg, eq_neg_iff_add_eq_zero, ← add_nsmul, Nat.sub_add_cancel (Nat.le_of_lt h)]
    exact order_nsmul A
  · rw [if_neg hhalf, decide_eq_false hhalf, if_neg (by decide), natCast_zsmul]

end CurveParams

namespace Scenario

open Coordinates CurveParams

variable {w : Scenario} {E : CurveParams} {p q : PointRegister E.base} {a : FieldRegister E.base}

section Group

variable [E.Elliptic] [E.base.HasHeadroom] {A B : E.Group}

omit [E.base.HasHeadroom] in
theorem ne_zero_of_ne_neg (h : A ≠ -A) : A ≠ 0 := by
  rintro rfl
  exact h neg_zero.symm

theorem double_of_spec (hp : w.At p (of A)) (ha : w.Residue a E.a) (hA : w.Honest → A ≠ -A) :
    w.Triple (Gadget.double p a) (fun r => A ≠ -A ∧ w.At r (of (A + A))) := by
  have hiff := two_mul_y_eq_zero_iff (A := A) b_ne_zero
  apply Triple.weaken (double_spec hp ha fun hw => mt hiff.mp (hA hw))
  rintro r ⟨hy, hr⟩
  have hne := mt hiff.mpr hy
  rw [of_double_eq_chord b_ne_zero (ne_zero_of_ne_neg hne) hy]
  exact ⟨hne, hr⟩

theorem chordAdd_of_spec (hp : w.At p (of A)) (hq : w.At q (of B)) (hA : A ≠ 0) (hB : B ≠ 0)
    (hx : (of A).x ≠ (of B).x) : w.Triple (Gadget.chordAdd p q) (fun r => w.At r (of (A + B))) := by
  apply Triple.weaken (chordAdd_spec hp hq fun _ => hx)
  rintro r ⟨-, hr⟩
  rw [of_add_eq_chord b_ne_zero hA hB hx]
  exact hr

theorem doubleAndAdd_of_spec (hp : w.At p (of A)) (hq : w.At q (of B)) (h : Apart A B) :
    w.Triple (Gadget.doubleAndAdd p q) (fun r => w.At r (of (A + (A + B)))) := by
  have hx' := h.x_add_ne
  obtain ⟨hA, hB, hx, -⟩ := h
  have hchord := of_add_eq_chord b_ne_zero hA hB hx
  apply Triple.weaken (doubleAndAdd_spec hp hq (fun _ => hx) fun _ => by rw [← hchord]; exact hx')
  rintro r ⟨-, -, hr⟩
  rw [of_doubleAndAdd b_ne_zero hA hB hx hx']
  exact hr

end Group

section Selection

variable {P : FieldParams} {X : Int → Coordinates (ZMod P.modulus)} {rs : List (Register .bit)}
  {m : Gadget.OddMultiples P} {half c count i : Nat}

structure HoldsMultiples (w : Scenario) (X : Int → Coordinates (ZMod P.modulus))
    (m : Gadget.OddMultiples P) : Prop where
  p1 : w.At m.p1 (X 1)
  p3 : w.At m.p3 (X 3)
  neg1 : w.At m.neg1 (X (-1))
  neg3 : w.At m.neg3 (X (-3))

theorem select_top : (if c.testBit (2 * digitCount half - 1) then X 3 else X 1) =
    X (digitAt half c (digitCount half - 1)) := by
  rw [digitAt_last]
  cases c.testBit (2 * digitCount half - 1)
  · rfl
  · rfl

theorem pickDigit_spec [P.HasHeadroom] (hbits : Digits w rs count c) (hm : HoldsMultiples w X m)
    (hi : i + 1 < digitCount half) (hcount : 2 * i + 2 < count) :
    w.Triple (Gadget.pickDigit rs.toArray m i) (fun r => w.At r (X (digitAt half c i))) := by
  apply Triple.bind (bitAt_spec hbits (by omega))
  intro low hlow
  apply Triple.bind (selectPoint_spec hlow hm.p3 hm.p1)
  intro positive hpositive
  apply Triple.bind (bitAt_spec hbits (by omega))
  intro low' hlow'
  apply Triple.bind (selectPoint_spec hlow' hm.neg1 hm.neg3)
  intro negative hnegative
  apply Triple.bind (bitAt_spec hbits (by omega))
  intro high hhigh
  apply Triple.weaken (selectPoint_spec hhigh hpositive hnegative)
  intro r hr
  rw [digitAt_of_lt hi]
  generalize c.testBit (2 * i + 2) = high at hr ⊢
  generalize c.testBit (2 * i + 1) = low at hr ⊢
  cases high <;> cases low <;> exact hr

end Selection

section Multiples

variable [E.Elliptic] [E.base.HasHeadroom] {A : E.Group} {n : Nat}

theorem oddMultiples_spec (hp : w.At p (of A)) (ha : w.Residue a E.a) (hfive : 5 ≤ n)
    (horder : A ≠ -A → addOrderOf A = n) (hA : w.Honest → A ≠ -A) :
    w.Triple (Gadget.oddMultiples a p) (fun m =>
      addOrderOf A = n ∧ HoldsMultiples w (fun k => of (k • A)) m) := by
  -- the point is doubled, so it is not its own negative; no more may be known of it before
  apply Triple.bind (double_of_spec hp ha hA)
  rintro p2 ⟨hne, hp2⟩
  have hn := horder hne
  -- From order five on, the point and its double are not zero, and they are distinct up to sign.
  have hone : (1 : Int) • A ≠ 0 := zsmul_ne_zero_of_abs_lt hn (by decide) (by rw [abs_lt]; omega)
  have htwo : (2 : Int) • A ≠ 0 := zsmul_ne_zero_of_abs_lt hn (by decide) (by rw [abs_lt]; omega)
  have hthree : (2 : Int) • A + A = (3 : Int) • A := by
    rw [← add_one_zsmul]
    rfl
  rw [one_zsmul] at hone
  rw [← two_zsmul] at hp2
  apply Triple.bind (chordAdd_of_spec hp2 hp htwo hone (x_two_zsmul_ne hn hfive))
  intro p3 hp3
  apply Triple.bind (negPoint_spec hp)
  intro neg1 hneg1
  apply Triple.bind (negPoint_spec hp3)
  intro neg3 hneg3
  apply Triple.pure
  rw [hthree] at hp3 hneg3
  refine ⟨hn, ?_, hp3, ?_, ?_⟩
  · rw [one_zsmul]
    exact hp
  · rw [neg_one_zsmul, of_neg]
    exact hneg1
  · rw [neg_zsmul, of_neg]
    exact hneg3

end Multiples

section Digits

variable [E.Elliptic] [E.base.HasHeadroom] {A : E.Group} {n c count i : Nat} {k l : Int}
  {rs : List (Register .bit)} {m : Gadget.OddMultiples E.base}

structure HoldsStep (w : Scenario) (A : E.Group) (k l : Int) (s : Gadget.DigitStep E.base) : Prop where
  acc : w.At s.acc (of (k • A))
  twice : w.At s.twice (of ((2 * k) • A))
  digit : w.At s.digit (of (l • A))

structure HoldsTrail (w : Scenario) (A : E.Group) (half c : Nat) (t : Gadget.Trail E.base) : Prop where
  multiples : HoldsMultiples w (fun k => of (k • A)) t.multiples
  steps : List.Forall₂ (fun i => HoldsStep w A (digitsFrom half c (i + 1)) (digitAt half c i))
    (List.range (digitCount half - 1)).reverse t.steps
  last : w.At t.last (of ((c ||| 1) • A))

section Step

variable (hodd : n % 2 = 1) (horder : addOrderOf A = n) (ha : w.Residue a E.a)

include hodd horder ha

theorem double_step_spec {acc : PointRegister E.base} (h : SafeStep n k l) (hk : w.At acc (of (k • A))) :
    w.Triple (Gadget.double acc a) (fun r => w.At r (of ((2 * k) • A))) := by
  have hdouble : k • A + k • A = (2 * k) • A := by rw [← add_zsmul, two_mul]
  have hne := h.two_mul_zsmul_ne_zero horder hodd
  rw [← hdouble] at hne ⊢
  apply Triple.weaken (double_of_spec hk ha fun _ => mt add_eq_zero_iff_eq_neg.mpr hne)
  exact fun r hr => hr.2

theorem recordSteps_spec (hn : 5 ≤ n) (hc : c ≤ (n - 1) / 2) (hbits : Digits w rs count c)
    (hm : HoldsMultiples w (fun k => of (k • A)) m) (hi : i < digitCount ((n - 1) / 2))
    (hcount : 2 * i < count) {acc : PointRegister E.base} (hacc : w.At acc (of (digitsFrom ((n - 1) / 2) c i • A))) :
    w.Triple (Gadget.recordSteps a rs.toArray m i acc) (fun r =>
      List.Forall₂ (fun i => HoldsStep w A (digitsFrom ((n - 1) / 2) c (i + 1)) (digitAt ((n - 1) / 2) c i))
        (List.range i).reverse r.1 ∧ w.At r.2 (of (digitsFrom ((n - 1) / 2) c 0 • A))) := by
  -- the accumulator holds the digits from `i` on
  induction i generalizing acc with
  | zero => exact Triple.pure ⟨.nil, hacc⟩
  | succ i ih =>
    have hsafe := safeStep_digits (by omega) hc hi
    have hfrom := digitsFrom_of_lt (c := c) hi
    have hdigit := digitAt_cases ((n - 1) / 2) c i
    have hne : digitAt ((n - 1) / 2) c i • A ≠ 0 :=
      zsmul_ne_zero_of_abs_lt horder (by omega) (by rw [abs_lt]; omega)
    unfold Gadget.recordSteps
    apply Triple.bind (pickDigit_spec hbits hm hi (by omega))
    intro digit hpick
    apply Triple.bind (double_step_spec hodd horder ha hsafe hacc)
    intro twice htwice
    apply Triple.bind (doubleAndAdd_of_spec htwice hpick (hsafe.apart horder hodd hne))
    intro next hnext
    have hsum : 2 * digitsFrom ((n - 1) / 2) c (i + 1) + (2 * digitsFrom ((n - 1) / 2) c (i + 1) +
        digitAt ((n - 1) / 2) c i) = digitsFrom ((n - 1) / 2) c i := by
      rw [hfrom]
      ring
    rw [← add_zsmul, ← add_zsmul, hsum] at hnext
    apply Triple.bind (ih (by omega) (by omega) hnext)
    rintro ⟨steps, last⟩ ⟨hsteps, hlast⟩
    apply Triple.pure
    rw [List.range_succ, List.reverse_append]
    exact ⟨.cons ⟨hacc, htwice, hpick⟩ hsteps, hlast⟩

end Step

theorem recordDigits_spec (hodd : n % 2 = 1) (hn : 5 ≤ n) (hc : c ≤ (n - 1) / 2)
    (hbits : Digits w rs count c) (hcount : 2 * digitCount ((n - 1) / 2) ≤ count) (ha : w.Residue a E.a)
    (hp : w.At p (of A)) (horder : A ≠ -A → addOrderOf A = n) (hA : w.Honest → A ≠ -A) :
    w.Triple (Gadget.recordDigits a rs.toArray (digitCount ((n - 1) / 2)) p)
      (fun t => addOrderOf A = n ∧ HoldsTrail w A ((n - 1) / 2) c t) := by
  have hd := digitCount_pos ((n - 1) / 2)
  apply Triple.bind (oddMultiples_spec hp ha hn horder hA)
  rintro multiples ⟨horder, hmultiples⟩
  apply Triple.bind (bitAt_spec hbits (by omega))
  intro bit hbit
  apply Triple.bind (selectPoint_spec hbit hmultiples.p3 hmultiples.p1)
  intro top htop
  rw [select_top (X := fun k => of (k • A)), ← digitsFrom_last] at htop
  apply Triple.bind (recordSteps_spec hodd horder ha hn hc hbits hmultiples (by omega) (by omega) htop)
  rintro ⟨steps, last⟩ ⟨hsteps, hlast⟩
  rw [digitsFrom_zero hc, natCast_zsmul] at hlast
  exact Triple.pure ⟨horder, hmultiples, hsteps, hlast⟩

end Digits

section ScalarMul

variable [hE : E.PrimeOrder] {A B : E.Group} {scalar : FieldRegister E.scalar} {s : Nat}

theorem of_ite_neg (β : Bool) (A : E.Group) : of (if β then -A else A) = if β then -of A else of A := by
  cases β
  · rfl
  · exact of_neg A

theorem select_even (c : Nat) (A : E.Group) :
    (if c.testBit 0 then of ((c ||| 1) • A) else of ((c ||| 1) • A + (-1 : Int) • A)) =
      of ((c : Int) • A) := by
  rw [← oddPart_zero, ← natCast_zsmul, Nat.testBit_zero, ← add_zsmul]
  unfold oddPart
  rcases Nat.mod_two_eq_zero_or_one c with h | h
  · rw [if_neg (by simp [h])]
    congr 2
    omega
  · rw [if_pos (by simp [h])]
    congr 2
    omega

theorem addPoint_of_spec (hp : w.At p (of A)) (hq : w.At q (of B)) :
    w.Triple (Gadget.addPoint E p q) (fun r => w.At r (of (A + B))) := by
  apply Triple.bind
    (completeSum_spec hE.base_odd hp hq x_eq_zero_of_y_eq_zero x_eq_zero_of_y_eq_zero)
  intro sum hsum
  apply Triple.pure
  rw [of_add b_ne_zero]
  constructor
  · exact ⟨_, hsum.x, ZMod.natCast_zmod_val _, fun _ => ZMod.val_lt _⟩
  · exact ⟨_, hsum.y, ZMod.natCast_zmod_val _, fun _ => ZMod.val_lt _⟩

structure Multiplies (w : Scenario) (A : E.Group) (s : Nat) (r : PointRegister E.base) : Prop where
  lt : s < E.groupOrder
  ne_zero : A ≠ 0
  x : w.Number r.x (of (s • A)).x.val
  y : w.Number r.y (of (s • A)).y.val

theorem multiplyFolded_spec {c : Nat} {f : Gadget.Folding E} (hc : c ≤ (E.groupOrder - 1) / 2)
    (hbits : Digits w f.bits E.scalar.bits c) (ha : w.Residue f.a E.a) (hpoint : w.At f.point (of A))
    (h : w.Honest → A ≠ 0) :
    w.Triple (Gadget.multiplyFolded E (digitCount ((E.groupOrder - 1) / 2)) f) (fun r =>
      A ≠ 0 ∧ w.Number r.x (of ((c : Int) • A)).x.val ∧ w.Number r.y (of ((c : Int) • A)).y.val) := by
  have hfive := hE.five_le
  have hcount := two_mul_digitCount_le E
  have hd := digitCount_pos ((E.groupOrder - 1) / 2)
  rw [Gadget.multiplyFolded_eq]
  have horder (hneg : A ≠ -A) : addOrderOf A = E.groupOrder :=
    addOrderOf_eq (ne_zero_of_ne_neg hneg)
  apply Triple.bind
    (recordDigits_spec odd_order hfive hc hbits hcount ha hpoint horder fun hw => ne_neg (h hw))
  rintro trail ⟨horder, htrail⟩
  have hne : A ≠ 0 := by
    rintro rfl
    rw [addOrderOf_zero] at horder
    omega
  -- the last sum may meet the point at infinity, so it is a complete one
  apply Triple.bind (addPoint_of_spec htrail.last htrail.multiples.neg1)
  intro even heven
  apply Triple.bind (bitAt_spec hbits (by omega))
  intro low hlow
  apply Triple.bind (selectPoint_spec hlow htrail.last heven)
  intro result hresult
  rw [select_even] at hresult
  apply Triple.bind (assertCanonical_spec hresult.x)
  intro _ hx
  apply Triple.bind (assertCanonical_spec hresult.y)
  intro _ hy
  exact Triple.pure ⟨hne, hx, hy⟩

theorem scalarMul_spec (hs : w.Number scalar s) (hp : w.At p (of A))
    (h : w.Honest → s < E.groupOrder ∧ A ≠ 0) :
    w.Triple (Gadget.scalarMul E scalar p) (Multiplies w A s) := by
  have hfive := hE.five_le
  rw [Gadget.scalarMul_eq]
  apply Triple.bind (halfOrder_spec (by omega))
  rintro _ rfl
  apply Triple.bind (fold_spec odd_order hs hp fun hw => (h hw).1)
  intro f hf
  have hpoint := hf.point
  rw [← of_ite_neg] at hpoint
  have hsign : (if decide ((E.groupOrder - 1) / 2 < s) then -A else A) ≠ 0 ↔ A ≠ 0 := by
    split
    · exact neg_ne_zero
    · exact Iff.rfl
  apply Triple.weaken (multiplyFolded_spec (foldedScalar_le E hf.lt) hf.bits hf.a hpoint
    fun hw => hsign.mpr (h hw).2)
  rintro r ⟨hne, hx, hy⟩
  rw [foldedScalar_zsmul E hf.lt] at hx hy
  exact ⟨hf.lt, hsign.mp hne, hx, hy⟩

end ScalarMul

end Scenario

end ForeignCurve
