import ForeignCurve.Proofs.Constants
import ForeignCurve.Proofs.Gadget.Fold
import ForeignCurve.Proofs.Gadget.Point

namespace ForeignCurve

variable {w : Scenario}

namespace CurveParams

def foldedScalar (E : CurveParams) (s : Nat) : Nat :=
  if (E.groupOrder - 1) / 2 < s then E.groupOrder - s else s

end CurveParams

namespace Scenario

section Fold

variable {E : CurveParams} [E.scalar.HasHeadroom] {scalar : FieldRegister E.scalar} {s : Nat}

structure Folded (w : Scenario) (E : CurveParams) (s : Nat)
    (r : Register .bit × FieldRegister E.scalar) : Prop where
  lt : s < E.groupOrder
  bit : w.Bit r.1 (decide ((E.groupOrder - 1) / 2 < s))
  number : w.Number r.2 (E.foldedScalar s)

theorem fold_unique {n half : Nat} {β : Bool} (hhalf : half = (n - 1) / 2) (hodd : n % 2 = 1)
    (hlt : s < n) (hle : (if β then n - s else s) ≤ half) :
    β = decide (half < s) := by
  -- whichever bit is picked, only the fold of the scalar is bounded by half of the order
  cases β with
  | true =>
    have hle : n - s ≤ half := hle
    exact (decide_eq_true (by omega)).symm
  | false =>
    have hle : s ≤ half := hle
    exact (decide_eq_false (by omega)).symm

theorem fold_le {n s : Nat} (hodd : n % 2 = 1) (hlt : s < n) :
    (if decide ((n - 1) / 2 < s) then n - s else s) ≤ (n - 1) / 2 := by
  by_cases h : (n - 1) / 2 < s
  · rw [decide_eq_true h, if_pos rfl]
    omega
  · rw [decide_eq_false h, if_neg (by decide)]
    omega

omit [E.scalar.HasHeadroom] in
theorem halfOrder_spec (h : 1 ≤ E.groupOrder) :
    w.Triple (liftM E.halfOrder) (fun half => half = (E.groupOrder - 1) / 2) := by
  rw [CurveParams.halfOrder_eq_ok h]
  exact Triple.lift fun _ h => (Except.ok.inj h).symm

theorem foldScalar_spec (hodd : E.groupOrder % 2 = 1) (hs : w.Number scalar s)
    (h : w.Honest → s < E.groupOrder) :
    w.Triple (Gadget.foldScalar E scalar) (Folded w E s) := by
  have hmodulus := FieldParams.modulus_lt (P := E.scalar)
  have : NeZero E.scalar.modulus := ⟨by unfold CurveParams.groupOrder at hodd; omega⟩
  unfold Gadget.foldScalar
  apply Triple.bind (halfOrder_spec (by omega))
  rintro _ rfl
  apply Triple.bind (assertCanonical_number hs h)
  intro _ hlt
  change s < E.groupOrder at hlt
  apply Triple.bind_with (slack_spec hs hmodulus fun hw => Nat.le_of_lt (h hw))
  rintro complement ⟨-, hcomplement⟩
  apply Triple.bind (greaterThan_spec hs (by unfold CurveParams.groupOrder; omega))
  rintro negate ⟨β, hβ, hhonest⟩
  apply Triple.bind (select_number hβ hcomplement hs)
  intro folded hfolded
  apply Triple.bind_with (slack_spec hfolded (by unfold CurveParams.groupOrder; omega) ?_)
  · rintro slack ⟨hle, -⟩
    -- the slack leaves one choice for the bit, which nothing else constrains
    obtain rfl := fold_unique rfl hodd hlt hle
    apply Triple.pure
    refine ⟨hlt, hβ, ?_⟩
    have hfold : (if decide ((E.groupOrder - 1) / 2 < s) then E.scalar.modulus - s else s) =
        E.foldedScalar s := by
      simp only [decide_eq_true_eq]
      rfl
    rwa [hfold] at hfolded
  · intro hw
    rw [hhonest hw]
    exact fold_le hodd (h hw)

end Fold

section Digits

variable {S : FieldParams} [S.HasHeadroom]

theorem Digits.nil (value : Nat) : Digits w [] 0 value :=
  ⟨rfl, fun i hi => absurd hi (Nat.not_lt_zero i)⟩

theorem Digits.append {rs rs' : List (Register .bit)} {k l value : Nat}
    (h : Digits w rs k (value % 2 ^ k)) (h' : Digits w rs' l (value / 2 ^ k)) :
    Digits w (rs ++ rs') (k + l) value := by
  have hlen := h.length_eq
  refine ⟨by rw [List.length_append, hlen, h'.length_eq], ?_⟩
  intro i hi
  rcases Nat.lt_or_ge i rs.length with hlow | hhigh
  · rw [List.getElem_append_left hlow]
    have hbit := h.bit i hlow
    rwa [Nat.testBit_mod_two_pow, decide_eq_true (by omega), Bool.true_and] at hbit
  · rw [List.getElem_append_right hhigh]
    have hbit := h'.bit (i - rs.length) (by rw [List.length_append] at hi; omega)
    have hindex : i - rs.length + k = i := by omega
    rwa [Nat.testBit_div_two_pow, hindex] at hbit

theorem scalarBitsGo_spec (limbs : Nat) {cell value : Nat}
    (h : w.Reads ⟨cell, limbs⟩ ((Limbs.encode S.limbBits limbs value).map Native.ofNat)) :
    w.Triple (Gadget.scalarBits.go (S := S) cell limbs)
      (fun rs => Digits w rs (S.limbBits * limbs) value) := by
  have hbits := FieldParams.limbBits_le (P := S)
  have hbase := FieldParams.limbBase_lt_order (P := S)
  -- one limb after the other: its digits are the lowest ones of what is left of the value
  induction limbs generalizing cell value with
  | zero =>
    unfold Gadget.scalarBits.go
    exact Triple.pure (Digits.nil value)
  | succ limbs ih =>
    have hlt := Nat.mod_lt value (Nat.two_pow_pos S.limbBits)
    have hval : (Native.ofNat (value % 2 ^ S.limbBits)).val = value % 2 ^ S.limbBits :=
      Nat.mod_eq_of_lt (Nat.lt_trans hlt hbase)
    rw [Limbs.encode_succ (by omega), List.map_cons, Nat.add_comm limbs 1] at h
    rw [← List.singleton_append] at h
    obtain ⟨hlow, hrest⟩ := (Store.reads_append_iff List.length_singleton).mp h
    unfold Gadget.scalarBits.go
    apply Triple.bind (decompose_spec (r := ⟨cell⟩) hlow (by rw [hval]; exact hlt) (by omega))
    intro bits hdigits
    rw [hval] at hdigits
    apply Triple.bind (ih hrest)
    intro rs hrs
    apply Triple.pure
    rw [Nat.mul_succ, Nat.add_comm]
    exact hdigits.append hrs

theorem scalarBits_spec {r : FieldRegister S} {value : Nat} (h : w.Number r value) :
    w.Triple (Gadget.scalarBits r) (fun rs => Digits w rs S.bits value) :=
  scalarBitsGo_spec S.limbs h.reads

theorem bitAt_spec {rs : List (Register .bit)} {count value i : Nat} (h : Digits w rs count value)
    (hi : i < count) :
    w.Triple (Gadget.bitAt rs.toArray i) (fun r => w.Bit r (value.testBit i)) := by
  have hlt : i < rs.length := by rw [h.length_eq]; exact hi
  have hget : rs.toArray[i]? = some rs[i] := by simp [hlt]
  unfold Gadget.bitAt
  rw [hget]
  exact Triple.pure (h.bit i hlt)

end Digits

section Point

variable {E : CurveParams} [E.scalar.HasHeadroom] [E.base.HasHeadroom] [Fact E.base.modulus.Prime]
  {scalar : FieldRegister E.scalar} {p : PointRegister E.base} {s : Nat}
  {X : Coordinates (ZMod E.base.modulus)}

structure Folds (w : Scenario) (s : Nat) (X : Coordinates (ZMod E.base.modulus)) (f : Gadget.Folding E) :
    Prop where
  lt : s < E.groupOrder
  scalar : w.Number f.scalar (E.foldedScalar s)
  bits : Digits w f.bits E.scalar.bits (E.foldedScalar s)
  a : w.Residue f.a (E.a : ZMod E.base.modulus)
  point : w.At f.point (if decide ((E.groupOrder - 1) / 2 < s) then -X else X)

theorem fold_spec (hodd : E.groupOrder % 2 = 1) (hs : w.Number scalar s) (hX : w.At p X)
    (h : w.Honest → s < E.groupOrder) : w.Triple (Gadget.fold E scalar p) (Folds w s X) := by
  apply Triple.bind (foldScalar_spec hodd hs h)
  rintro ⟨negate, folded⟩ hfolded
  apply Triple.bind (scalarBits_spec hfolded.number)
  intro bits hbits
  apply Triple.bind (constant_spec E.a)
  intro a ha
  apply Triple.bind (neg_spec hX.y)
  intro negY hnegY
  apply Triple.bind (select_spec hfolded.bit hnegY hX.y)
  intro y hy
  apply Triple.pure
  refine ⟨hfolded.lt, hfolded.number, hbits, ha, ?_⟩
  generalize decide ((E.groupOrder - 1) / 2 < s) = β at hy
  cases β with
  | true => exact ⟨hX.x, hy⟩
  | false => exact ⟨hX.x, hy⟩

end Point

end Scenario

end ForeignCurve
