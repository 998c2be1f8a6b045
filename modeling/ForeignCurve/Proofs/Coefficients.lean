import Mathlib.Algebra.Polynomial.Eval.Coeff
import Mathlib.Data.ZMod.Defs
import Mathlib.Tactic.LinearCombination
import Mathlib.Tactic.Ring
import ForeignCurve.Constraint.Arith
import ForeignCurve.Poly

namespace ForeignCurve

open Polynomial Fin.CommRing

section Denotation

variable {R S : Type} [CommRing R] [CommRing S]

noncomputable def ofCoeffs : List R → R[X]
  | [] => 0
  | c :: cs => C c + X * ofCoeffs cs

@[simp]
theorem ofCoeffs_nil : ofCoeffs ([] : List R) = 0 := rfl

@[simp]
theorem ofCoeffs_cons (c : R) (cs : List R) : ofCoeffs (c :: cs) = C c + X * ofCoeffs cs := rfl

theorem coeff_ofCoeffs (cs : List R) (i : Nat) : (ofCoeffs cs).coeff i = cs[i]?.getD 0 := by
  induction cs generalizing i with
  | nil => simp
  | cons c cs ih =>
    cases i with
    | zero => simp
    | succ i =>
      rw [ofCoeffs_cons, coeff_add, coeff_C_succ, coeff_X_mul, zero_add, ih]
      simp

theorem coeff_ofCoeffs_of_le {cs : List R} {i : Nat} (h : cs.length ≤ i) :
    (ofCoeffs cs).coeff i = 0 := by
  rw [coeff_ofCoeffs, List.getElem?_eq_none h]
  rfl

theorem map_ofCoeffs (f : R →+* S) (cs : List R) :
    (ofCoeffs cs).map f = ofCoeffs (cs.map f) := by
  induction cs with
  | nil => simp
  | cons c cs ih => simp [ih]

theorem ofCoeffs_injective {as bs : List R} (hlen : as.length = bs.length)
    (h : ofCoeffs as = ofCoeffs bs) : as = bs := by
  apply List.ext_getElem hlen
  intro i ha hb
  have hi := congrArg (fun p => p.coeff i) h
  simpa [coeff_ofCoeffs, ha, hb] using hi

theorem forall_eq_zero_iff_ofCoeffs {cs : List R} :
    (∀ c ∈ cs, c = 0) ↔ ofCoeffs cs = 0 := by
  constructor
  · intro h
    induction cs with
    | nil => rfl
    | cons c cs ih =>
      rw [List.forall_mem_cons] at h
      rw [ofCoeffs_cons, h.1, ih h.2]
      simp
  · intro h c hc
    obtain ⟨i, hi, rfl⟩ := List.getElem_of_mem hc
    have hcoeff := congrArg (fun p => p.coeff i) h
    simpa [coeff_ofCoeffs, hi] using hcoeff

end Denotation

namespace Poly

variable {R : Type}

section Length

@[simp]
theorem addCoeffs_nil [Add R] (as : List R) : addCoeffs as [] = as := by
  cases as <;> rfl

@[simp]
theorem length_addCoeffs [Add R] (as bs : List R) :
    (addCoeffs as bs).length = max as.length bs.length := by
  fun_induction addCoeffs as bs with
  | case1 bs => simp
  | case2 as => simp
  | case3 a as b bs ih =>
    simp only [List.length_cons, ih]
    omega

@[simp]
theorem length_subCoeffs [Sub R] [Neg R] (as bs : List R) :
    (subCoeffs as bs).length = max as.length bs.length := by
  fun_induction subCoeffs as bs with
  | case1 bs => simp
  | case2 as => simp
  | case3 a as b bs ih =>
    simp only [List.length_cons, ih]
    omega

variable [Add R]

def sumRows (row : R → List R) : List R → List R → List R
  | acc, [] => acc
  | acc, a :: as =>
    match addCoeffs acc (row a) with
    | [] => sumRows row [] as
    | c :: cs => c :: sumRows row cs as

theorem sumRows_of_nil {row : R → List R} (h : ∀ a, row a = []) (as : List R) : sumRows row [] as = [] := by
  induction as with
  | nil => rfl
  | cons a as ih =>
    rw [sumRows, h a]
    exact ih

theorem length_sumRows {row : R → List R} {m : Nat} (hm : 0 < m)
    (hrow : ∀ a, (row a).length = m) (acc as : List R) :
    (sumRows row acc as).length = max acc.length (if as = [] then 0 else as.length + m - 1) := by
  fun_induction sumRows row acc as with
  | case1 acc => simp
  | case2 acc a as hnil ih =>
    have hlen := length_addCoeffs acc (row a)
    rw [hnil, hrow, List.length_nil] at hlen
    omega
  | case3 acc a as c cs hcons ih =>
    have hlen := length_addCoeffs acc (row a)
    rw [hcons, hrow, List.length_cons] at hlen
    rw [List.length_cons, ih, if_neg (List.cons_ne_nil _ _), List.length_cons]
    cases as with
    | nil =>
      rw [if_pos rfl, List.length_nil]
      omega
    | cons b bs =>
      rw [if_neg (List.cons_ne_nil _ _), List.length_cons]
      omega

end Length

section Ring

variable [CommRing R]

@[simp]
theorem ofCoeffs_addCoeffs (as bs : List R) :
    ofCoeffs (addCoeffs as bs) = ofCoeffs as + ofCoeffs bs := by
  fun_induction addCoeffs as bs with
  | case1 bs => simp
  | case2 as => simp
  | case3 a as b bs ih =>
    rw [ofCoeffs_cons, ih, C_add, ofCoeffs_cons, ofCoeffs_cons]
    ring

theorem ofCoeffs_map_neg (bs : List R) : ofCoeffs (bs.map (- ·)) = -ofCoeffs bs := by
  induction bs with
  | nil => simp
  | cons b bs ih =>
    rw [List.map_cons, ofCoeffs_cons, ih, C_neg, ofCoeffs_cons]
    ring

@[simp]
theorem ofCoeffs_subCoeffs (as bs : List R) :
    ofCoeffs (subCoeffs as bs) = ofCoeffs as - ofCoeffs bs := by
  fun_induction subCoeffs as bs with
  | case1 bs => rw [ofCoeffs_map_neg, ofCoeffs_nil, zero_sub]
  | case2 as => simp
  | case3 a as b bs ih =>
    rw [ofCoeffs_cons, ih, C_sub, ofCoeffs_cons, ofCoeffs_cons]
    ring

theorem ofCoeffs_map_mul (a : R) (bs : List R) :
    ofCoeffs (bs.map (a * ·)) = C a * ofCoeffs bs := by
  induction bs with
  | nil => simp
  | cons b bs ih =>
    rw [List.map_cons, ofCoeffs_cons, ih, C_mul, ofCoeffs_cons]
    ring

theorem ofCoeffs_sumRows {row : R → List R} {m : Nat} {q : R[X]}
    (hlen : ∀ a, (row a).length = m) (hrow : ∀ a, ofCoeffs (row a) = C a * q)
    (acc as : List R) :
    ofCoeffs (sumRows row acc as) = ofCoeffs acc + ofCoeffs as * q := by
  fun_induction sumRows row acc as with
  | case1 acc => simp
  | case2 acc a as hnil ih =>
    -- nothing is shifted here, which is right because all rows are empty
    have hmax := length_addCoeffs acc (row a)
    rw [hnil, hlen, List.length_nil] at hmax
    have hacc : acc = [] := List.length_eq_zero_iff.mp (by omega)
    have hone : row 1 = [] := List.length_eq_zero_iff.mp (by rw [hlen]; omega)
    have hq : q = 0 := by
      have hrow1 := hrow 1
      rw [hone, ofCoeffs_nil, C_1, one_mul] at hrow1
      exact hrow1.symm
    rw [ih, hacc, hq, mul_zero, mul_zero]
  | case3 acc a as c cs hcons ih =>
    have hsum := ofCoeffs_addCoeffs acc (row a)
    rw [hcons, ofCoeffs_cons, hrow] at hsum
    rw [ofCoeffs_cons, ih, ofCoeffs_cons]
    linear_combination hsum

@[simp]
theorem ofCoeffs_mulCoeffs (as bs : List R) :
    ofCoeffs (mulCoeffs as bs) = ofCoeffs as * ofCoeffs bs := by
  fun_induction mulCoeffs as bs with
  | case1 bs => simp
  | case2 as => simp
  | case3 a as bs hbs ih =>
    rw [ofCoeffs_addCoeffs, ofCoeffs_map_mul, ofCoeffs_cons, ih, C_0, ofCoeffs_cons]
    ring

theorem mulCoeffs_nil (as : List R) : mulCoeffs as [] = [] := by
  cases as <;> rfl

theorem length_mulCoeffs {as bs : List R} (ha : as ≠ []) (hb : bs ≠ []) :
    (mulCoeffs as bs).length = as.length + bs.length - 1 := by
  have hpos := List.length_pos_iff.mpr hb
  induction as with
  | nil => contradiction
  | cons a as ih =>
    rw [mulCoeffs.eq_3 _ _ _ (by simpa using hb), length_addCoeffs, List.length_map, List.length_cons,
      List.length_cons]
    cases as with
    | nil =>
      rw [mulCoeffs, List.length_nil]
      omega
    | cons a' as =>
      rw [ih (List.cons_ne_nil _ _), List.length_cons]
      omega

theorem mulCoeffs_eq_sumRows (as bs : List R) :
    mulCoeffs as bs = sumRows (fun a => bs.map (a * ·)) [] as := by
  rcases eq_or_ne as [] with rfl | ha
  · rfl
  · rcases eq_or_ne bs [] with rfl | hb
    · rw [mulCoeffs_nil, sumRows_of_nil fun _ => List.map_nil]
    · apply ofCoeffs_injective
      · rw [length_mulCoeffs ha hb, length_sumRows (List.length_pos_iff.mpr hb) fun a => List.length_map _,
          if_neg ha, List.length_nil]
        omega
      · rw [ofCoeffs_mulCoeffs,
          ofCoeffs_sumRows (fun a => List.length_map _) fun a => ofCoeffs_map_mul a bs, ofCoeffs_nil, zero_add]

theorem length_mulCoeffs_eq (as bs : List R) :
    (mulCoeffs as bs).length = if as = [] ∨ bs = [] then 0 else as.length + bs.length - 1 := by
  split
  · next h =>
    obtain rfl | rfl := h
    · rfl
    · rw [mulCoeffs_nil, List.length_nil]
  · next h =>
    rw [not_or] at h
    exact length_mulCoeffs h.1 h.2

theorem subCoeffs_replicate (as : List R) (b : R) :
    subCoeffs as (.replicate as.length b) = as.map (· - b) := by
  induction as with
  | nil => rfl
  | cons a as ih => rw [List.length_cons, List.replicate_succ, subCoeffs, ih, List.map_cons]

theorem mulCoeffs_singleton (as : List R) (b : R) : mulCoeffs as [b] = as.map (· * b) := by
  induction as with
  | nil => rfl
  | cons a as ih =>
    rw [mulCoeffs.eq_3 _ _ _ (by simp), ih, List.map_singleton, addCoeffs, addCoeffs, add_zero, List.map_cons]

end Ring

end Poly

namespace Arith

section Operations

variable {V : Type} [Arith V]

@[reducible]
def toAdd : Add V := ⟨add⟩

@[reducible]
def toSub : Sub V := ⟨sub⟩

@[reducible]
def toNeg : Neg V := ⟨neg⟩

@[reducible]
def toMul : Mul V := ⟨mul⟩

attribute [local instance] toAdd toSub toNeg toMul

theorem polyAdd_eq (as bs : List V) : polyAdd as bs = Poly.addCoeffs as bs := by
  fun_induction polyAdd as bs with
  | case1 bs => rfl
  | case2 as => cases as <;> rfl
  | case3 a as b bs ih =>
    rw [ih]
    rfl

theorem polySub_eq (as bs : List V) : polySub as bs = Poly.subCoeffs as bs := by
  fun_induction polySub as bs with
  | case1 bs => rfl
  | case2 as => cases as <;> rfl
  | case3 a as b bs ih =>
    rw [ih]
    rfl

theorem mulAcc_eq (row : V → List V) (acc as : List V) : mulAcc row acc as = Poly.sumRows row acc as := by
  fun_induction mulAcc row acc as with
  | case1 acc => rfl
  | case2 acc a as hnil ih =>
    rw [polyAdd_eq] at hnil
    rw [ih, Poly.sumRows, hnil]
  | case3 acc a as c cs hcons ih =>
    rw [polyAdd_eq] at hcons
    rw [ih, Poly.sumRows, hcons]

@[simp]
theorem length_polyAdd (as bs : List V) :
    (polyAdd as bs).length = max as.length bs.length := by
  rw [polyAdd_eq, Poly.length_addCoeffs]

@[simp]
theorem length_polySub (as bs : List V) :
    (polySub as bs).length = max as.length bs.length := by
  rw [polySub_eq, Poly.length_subCoeffs]

theorem length_mulAcc {row : V → List V} {m : Nat} (hm : 0 < m)
    (hrow : ∀ a, (row a).length = m) (acc as : List V) :
    (mulAcc row acc as).length = max acc.length (if as = [] then 0 else as.length + m - 1) := by
  rw [mulAcc_eq, Poly.length_sumRows hm hrow]

theorem length_polyMul {as bs : List V} (ha : as ≠ []) (hb : bs ≠ []) :
    (polyMul as bs).length = as.length + bs.length - 1 := by
  unfold polyMul
  rw [length_mulAcc (List.length_pos_iff.mpr hb) (fun a => List.length_map _), if_neg ha,
    List.length_nil]
  omega

end Operations

section Native

theorem add_eq (a b : Native) : Arith.add a b = a + b := rfl

theorem sub_eq (a b : Native) : Arith.sub a b = a - b := rfl

theorem mul_eq (a b : Native) : Arith.mul a b = a * b := rfl

theorem const_eq (c : Native) : (Arith.const c : Native) = c := rfl

@[simp]
theorem constPoly_native (cs : List Native) : (constPoly cs : List Native) = cs := by
  unfold constPoly
  exact List.map_id cs

theorem polyMul_eq (as bs : List Native) : polyMul as bs = Poly.mulCoeffs as bs :=
  (mulAcc_eq _ [] as).trans (Poly.mulCoeffs_eq_sumRows as bs).symm

theorem polyMulConst_eq (as cs : List Native) : polyMulConst as cs = Poly.mulCoeffs as cs :=
  polyMul_eq as cs

@[simp]
theorem ofCoeffs_polyAdd (as bs : List Native) :
    ofCoeffs (polyAdd as bs) = ofCoeffs as + ofCoeffs bs :=
  (congrArg ofCoeffs (polyAdd_eq as bs)).trans (Poly.ofCoeffs_addCoeffs as bs)

@[simp]
theorem ofCoeffs_polySub (as bs : List Native) :
    ofCoeffs (polySub as bs) = ofCoeffs as - ofCoeffs bs :=
  (congrArg ofCoeffs (polySub_eq as bs)).trans (Poly.ofCoeffs_subCoeffs as bs)

@[simp]
theorem ofCoeffs_polyMul (as bs : List Native) :
    ofCoeffs (polyMul as bs) = ofCoeffs as * ofCoeffs bs := by
  rw [polyMul_eq, Poly.ofCoeffs_mulCoeffs]

@[simp]
theorem ofCoeffs_polyMulConst (as cs : List Native) :
    ofCoeffs (polyMulConst as cs) = ofCoeffs as * ofCoeffs cs := by
  rw [polyMulConst_eq, Poly.ofCoeffs_mulCoeffs]

end Native

end Arith

namespace Poly

theorem addCoeffs_eq (as bs : List Native) : addCoeffs as bs = Arith.polyAdd as bs :=
  (Arith.polyAdd_eq as bs).symm

theorem subCoeffs_eq (as bs : List Native) : subCoeffs as bs = Arith.polySub as bs :=
  (Arith.polySub_eq as bs).symm

theorem mulCoeffs_eq (as bs : List Native) : mulCoeffs as bs = Arith.polyMul as bs :=
  (Arith.polyMul_eq as bs).symm

theorem eval_eq (p : Poly) (x : Native) : p.eval x = (ofCoeffs p.coeffs).eval x := by
  unfold eval
  induction p.coeffs with
  | nil => simp
  | cons c cs ih =>
    rw [List.foldr_cons, ih, ofCoeffs_cons, eval_add, eval_C, eval_mul, eval_X]
    ring

@[simp]
theorem length_suffixEvals (x : Native) (cs : List Native) :
    (suffixEvals x cs).length = cs.length := by
  induction cs with
  | nil => rfl
  | cons c cs ih => simp [suffixEvals, ih]

theorem headD_suffixEvals (x : Native) (cs : List Native) :
    (suffixEvals x cs).headD 0 = (ofCoeffs cs).eval x := by
  induction cs with
  | nil => simp [suffixEvals]
  | cons c cs ih =>
    rw [suffixEvals, List.headD_cons, ih, ofCoeffs_cons, eval_add, eval_C, eval_mul, eval_X]
    ring

theorem ofCoeffs_suffixEvals (x c : Native) (cs : List Native) :
    ofCoeffs (c :: cs) =
      (X - C x) * ofCoeffs (suffixEvals x cs) + C ((ofCoeffs (c :: cs)).eval x) := by
  -- the suffix values are the quotient by `X - x`, up to the remainder
  induction cs generalizing c with
  | nil => simp [suffixEvals]
  | cons d cs ih =>
    have hd := ih d
    rw [ofCoeffs_cons c, suffixEvals, ofCoeffs_cons (d + _), headD_suffixEvals]
    simp only [eval_add, eval_C, eval_mul, eval_X, C_add, C_mul, ofCoeffs_cons] at hd ⊢
    linear_combination X * hd

end Poly

end ForeignCurve
