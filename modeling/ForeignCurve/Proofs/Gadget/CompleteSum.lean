import ForeignCurve.Proofs.Gadget.Point

namespace ForeignCurve

-- the instance for the rest of a gadget is as large as the gadget is long
set_option synthInstance.maxSize 1000000

namespace Coordinates

variable {F : Type} [Field F]

theorem blend_ite (c : Prop) [Decidable c] (x y : F) :
    y + (if c then 1 else 0) * (x - y) = if c then x else y := by
  split
  · rw [one_mul, add_sub_cancel]
  · rw [zero_mul, add_zero]

theorem mul_ite_one (c c' : Prop) [Decidable c] [Decidable c'] :
    ((if c then 1 else 0) * (if c' then 1 else 0) : F) = if c ∧ c' then 1 else 0 := by
  by_cases hc : c
  · simp [hc]
  · simp [hc]

variable [DecidableEq F] {P Q : Coordinates F} {a s : F}

structure IsSlope (P Q : Coordinates F) (a s : F) : Prop where
  chord : P.x ≠ Q.x → s = P.chordSlope Q
  tangent : P.x = Q.x → P.y ≠ 0 → P.y + Q.y ≠ 0 → s = P.tangentSlope a

omit [DecidableEq F] in
theorem mul_tangentSlope (htwo : (2 : F) ≠ 0) (h : P.y ≠ 0) :
    (P.y + P.y) * P.tangentSlope a = 3 * (P.x * P.x) + a := by
  rw [← two_mul, mul_comm]
  exact div_mul_cancel₀ _ (mul_ne_zero htwo h)

theorem isSlope_iff (htwo : (2 : F) ≠ 0) : IsSlope P Q a s ↔
    (Q.x - P.x) * (s * (Q.x - P.x) - (Q.y - P.y)) = 0 ∧
      (1 - if P.y = 0 then 1 else 0) * (if P.x = Q.x then 1 else 0) *
          (1 - if P.y + Q.y = 0 then 1 else 0) *
        ((P.y + P.y) * s - (3 * (P.x * P.x) + a)) = 0 := by
  constructor
  · intro h
    constructor
    · by_cases hx : P.x = Q.x
      · rw [hx, sub_self, zero_mul]
      · rw [h.chord hx, mul_chordSlope hx, sub_self, mul_zero]
    · -- for equal abscissas one of the factors vanishes
      by_cases hx : P.x = Q.x
      · by_cases hy : P.y = 0
        · rw [if_pos hy, sub_self, zero_mul, zero_mul, zero_mul]
        · by_cases hsum : P.y + Q.y = 0
          · rw [if_pos hsum, sub_self, mul_zero, zero_mul]
          · rw [h.tangent hx hy hsum, mul_tangentSlope htwo hy, sub_self, mul_zero]
      · rw [if_neg hx, mul_zero, zero_mul, zero_mul]
  · rintro ⟨hchord, htangent⟩
    constructor
    · intro hx
      have hdx := sub_ne_zero.mpr (Ne.symm hx)
      have hrise := sub_eq_zero.mp ((mul_eq_zero.mp hchord).resolve_left hdx)
      exact eq_div_of_mul_eq hdx hrise
    · intro hx hy hsum
      rw [if_neg hy, if_neg hsum, if_pos hx, sub_zero, mul_one, mul_one,
        one_mul, sub_eq_zero] at htangent
      apply eq_div_of_mul_eq (mul_ne_zero htwo hy)
      rw [mul_comm, two_mul]
      exact htangent

theorem isSlope_slope (P Q : Coordinates F) (a : F) : IsSlope P Q a (P.slope Q a) := by
  constructor
  · intro hx
    exact if_pos hx
  · intro hx hy hsum
    unfold slope
    rw [if_neg (not_not.mpr hx), if_pos ⟨hy, hsum⟩]

theorem add_eq_of_isSlope (hs : IsSlope P Q a s) (hP : P.y = 0 → P.x = 0) (hQ : Q.y = 0 → Q.x = 0) :
    P.add Q a = P.sumWithSlope Q s := by
  have hzero {R : Coordinates F} (hR : R.y = 0 → R.x = 0) : R = 0 ↔ R.y = 0 := by
    rw [Coordinates.ext_iff]
    exact ⟨fun h => h.2, fun h => ⟨hR h, h⟩⟩
  unfold add sumWithSlope
  rw [if_congr (hzero hP) rfl rfl, if_congr (hzero hQ) rfl rfl]
  by_cases hPy : P.y = 0
  · rw [if_pos hPy, if_pos hPy]
  rw [if_neg hPy, if_neg hPy]
  by_cases hQy : Q.y = 0
  · rw [if_pos hQy, if_pos hQy]
  rw [if_neg hQy, if_neg hQy]
  by_cases hx : P.x = Q.x
  · by_cases hsum : P.y + Q.y = 0
    · rw [if_pos hx, if_pos hsum, if_pos ⟨hx, hsum⟩]
    · rw [if_pos hx, if_neg hsum, if_neg (fun h => hsum h.2), double, if_neg hPy,
        hs.tangent hx hPy hsum, hx]
  · rw [if_neg hx, if_neg (fun h => hx h.1), hs.chord hx]

end Coordinates

namespace Scenario

variable {E : CurveParams} {w : Scenario} [E.base.HasHeadroom] [hp : Fact E.base.modulus.Prime]
  {p q : PointRegister E.base} {X Y : Coordinates (ZMod E.base.modulus)}

structure Sums (w : Scenario) (E : CurveParams) [Fact E.base.modulus.Prime]
    (X Y : Coordinates (ZMod E.base.modulus)) (r : Gadget.CompleteSum E.base) : Prop where
  x : w.Number r.result.x (X.add Y E.a).x.val
  y : w.Number r.result.y (X.add Y E.a).y.val
  slope : ∃ s, w.Residue r.slope s ∧ X.IsSlope Y E.a s
  pIsIdentity : w.Residue r.pIsIdentity (if X.y = 0 then 1 else 0)
  qIsIdentity : w.Residue r.qIsIdentity (if Y.y = 0 then 1 else 0)
  sameX : w.Residue r.sameX (if X.x = Y.x then 1 else 0)
  oppositeY : w.Residue r.oppositeY (if X.y + Y.y = 0 then 1 else 0)

structure Blends (w : Scenario) (E : CurveParams) [Fact E.base.modulus.Prime]
    (X Y : Coordinates (ZMod E.base.modulus)) (s : ZMod E.base.modulus)
    (r : Gadget.CompleteSum E.base) : Prop where
  isSlope : X.IsSlope Y E.a s
  honest : w.Honest → s = X.slope Y E.a
  x : w.Number r.result.x (X.sumWithSlope Y s).x.val
  y : w.Number r.result.y (X.sumWithSlope Y s).y.val
  slope : w.Residue r.slope s
  pIsIdentity : w.Residue r.pIsIdentity (if X.y = 0 then 1 else 0)
  qIsIdentity : w.Residue r.qIsIdentity (if Y.y = 0 then 1 else 0)
  sameX : w.Residue r.sameX (if X.x = Y.x then 1 else 0)
  oppositeY : w.Residue r.oppositeY (if X.y + Y.y = 0 then 1 else 0)

omit hp in
theorem Residue.readField_reduce [NeZero E.base.modulus] {r : FieldRegister E.base}
    {x : ZMod E.base.modulus} (h : w.Residue r x) {t : Trace} (ht : t.store = w.store)
    (hnum : t.numCells = w.numCells) :
    ∃ N, t.readField r = .ok N ∧ E.base.reduce N = .ok x.val := by
  obtain ⟨N, hN, rfl, -⟩ := h
  refine ⟨N, hN.readField ht hnum, ?_⟩
  rw [FieldParams.reduce_eq_ok (NeZero.ne _), ZMod.val_natCast]

theorem slopePlan_eq_ok (htwo : E.base.modulus ≠ 2) (hX : w.At p X) (hY : w.At q Y) {t : Trace}
    (ht : t.store = w.store) (hnum : t.numCells = w.numCells) (r : FieldRegister E.base) :
    Instruction.slopePlan E p q r t =
      .ok (.write r.slice (E.base.digits (X.slope Y E.a).val) .done) := by
  obtain ⟨px, hpx, hpx'⟩ := hX.x.readField_reduce ht hnum
  obtain ⟨py, hpy, hpy'⟩ := hX.y.readField_reduce ht hnum
  obtain ⟨qx, hqx, hqx'⟩ := hY.x.readField_reduce ht hnum
  obtain ⟨qy, hqy, hqy'⟩ := hY.y.readField_reduce ht hnum
  have hreduce {x y u v : Nat} (hx : E.base.reduce x = .ok u) (hy : E.base.reduce y = .ok v) :
      Instruction.reducePoint E.base ⟨x, y⟩ = .ok ⟨u, v⟩ :=
    bind_eq_ok_iff.mpr ⟨u, hx, bind_eq_ok_iff.mpr ⟨v, hy, rfl⟩⟩
  unfold Instruction.slopePlan
  refine bind_eq_ok_iff.mpr ⟨⟨px, py⟩, liftM_fault_eq_ok_iff.mpr ?_, ?_⟩
  · exact bind_eq_ok_iff.mpr ⟨px, hpx, bind_eq_ok_iff.mpr ⟨py, hpy, rfl⟩⟩
  refine bind_eq_ok_iff.mpr ⟨⟨qx, qy⟩, liftM_fault_eq_ok_iff.mpr ?_, ?_⟩
  · exact bind_eq_ok_iff.mpr ⟨qx, hqx, bind_eq_ok_iff.mpr ⟨qy, hqy, rfl⟩⟩
  refine bind_eq_ok_iff.mpr ⟨_, liftM_abort_eq_ok_iff.mpr (hreduce hpx' hpy'), ?_⟩
  refine bind_eq_ok_iff.mpr ⟨_, liftM_abort_eq_ok_iff.mpr (hreduce hqx' hqy'), ?_⟩
  refine bind_eq_ok_iff.mpr
    ⟨_, liftM_abort_eq_ok_iff.mpr (Instruction.lineSlope_eq_ok htwo X Y), ?_⟩
  exact bind_eq_ok_iff.mpr ⟨_, liftM_abort_eq_ok_iff.mpr (E.base.encode_eq_digits _), rfl⟩

omit [E.base.HasHeadroom] hp in
theorem addsAt_slope (p q : PointRegister E.base) (k : Nat) :
    (do
      let r ← Record.alloc (.field E.base)
      let _ ← Record.append (.slope E p q r)
      return r : Record (FieldRegister E.base)).AddsAt k ⟨k⟩ E.base.limbs
      ((Record.ruleInstruction? (.range E.base.limbBits) ⟨k, E.base.limbs⟩).toList ++
        [.slope E p q ⟨k⟩]) := by
  apply Record.AddsAt.bind_noCells (.alloc k (.field E.base))
  exact Record.AddsAt.bind_pure (Record.AddsAt.append _ _)

theorem slopeHint_spec (htwo : E.base.modulus ≠ 2) (hX : w.At p X) (hY : w.At q Y) :
    w.Triple (do
      let r ← Record.alloc (.field E.base)
      let _ ← Record.append (.slope E p q r)
      return r) (fun r => ∃ s, w.Residue r s ∧ (w.Honest → s = X.slope Y E.a)) := by
  have hlt := ZMod.val_lt (X.slope Y (E.a : ZMod E.base.modulus))
  have hmodulus := FieldParams.modulus_lt (P := E.base)
  apply Triple.freshField (f := fun r => .slope E p q r) (addsAt_slope p q)
  · intro hw r N hN _
    exact ⟨N, .of_number hN fun hw' => absurd hw' hw, fun hw' => absurd hw' hw⟩
  · intro hw
    refine ⟨(X.slope Y (E.a : ZMod E.base.modulus)).val, by omega, ?_, ?_⟩
    · intro r t ht hnum
      exact slopePlan_eq_ok htwo hX hY ht hnum r
    · intro r hr
      exact ⟨holds_hint fun vs => rfl, _, ⟨_, hr, ZMod.natCast_zmod_val _, fun _ => hlt⟩,
        fun _ => rfl⟩

section Assertions

variable {slope dx dy one a pIsIdentity sameX oppositeY : FieldRegister E.base}
  {s u v α i j k : ZMod E.base.modulus}

theorem assertChord_spec (hs : w.Residue slope s) (hdx : w.Residue dx u) (hdy : w.Residue dy v)
    (h : w.Honest → u * (s * u - v) = 0) :
    w.Triple (Gadget.assertChord slope dx dy) (fun _ => u * (s * u - v) = 0) := by
  apply Triple.bind (mul_spec hs hdx)
  intro rise hrise
  apply Triple.bind (sub_spec hrise hdy)
  intro chord hchord
  apply Triple.bind (mul_spec hdx hchord)
  intro product hproduct
  exact assertZero_spec hproduct h

theorem assertTangent_spec (hX : w.At p X) (hs : w.Residue slope s) (hone : w.Residue one 1)
    (ha : w.Residue a α) (hi : w.Residue pIsIdentity i) (hj : w.Residue sameX j)
    (hk : w.Residue oppositeY k)
    (h : w.Honest →
      (1 - i) * j * (1 - k) * ((X.y + X.y) * s - (3 * (X.x * X.x) + α)) = 0) :
    w.Triple (Gadget.assertTangent p slope one a pIsIdentity sameX oppositeY)
      (fun _ => (1 - i) * j * (1 - k) * ((X.y + X.y) * s - (3 * (X.x * X.x) + α)) = 0) := by
  apply Triple.bind (sub_spec hone hi)
  intro finite hfinite
  apply Triple.bind (sub_spec hone hk)
  intro notOpposite hnotOpposite
  apply Triple.bind (mul_spec hfinite hj)
  intro equal hequal
  apply Triple.bind (mul_spec hequal hnotOpposite)
  intro equal hequal
  apply Triple.bind (add_spec hX.y hX.y)
  intro twice htwice
  apply Triple.bind (mul_spec htwice hs)
  intro lhs hlhs
  apply Triple.bind (tangentNumerator_spec hX.x ha)
  intro rhs hrhs
  apply Triple.bind (sub_spec hlhs hrhs)
  intro tangent htangent
  apply Triple.bind (mul_spec hequal htangent)
  intro product hproduct
  exact assertZero_spec hproduct h

theorem blendIf_spec {selector r r' : FieldRegister E.base} {c : Prop} [Decidable c]
    {x y : ZMod E.base.modulus} (hc : w.Residue selector (if c then 1 else 0)) (hx : w.Residue r x)
    (hy : w.Residue r' y) :
    w.Triple (Gadget.blend selector r r') (fun z => w.Residue z (if c then x else y)) := by
  have h := blend_spec hc hx hy
  rwa [Coordinates.blend_ite] at h

end Assertions

theorem completeSum_blends (htwo : E.base.modulus ≠ 2) (hX : w.At p X) (hY : w.At q Y) :
    w.Triple (Gadget.completeSum E p q) (fun r => ∃ s, Blends w E X Y s r) := by
  have htwo' := two_ne_zero_of_odd htwo
  apply Triple.bind (constant_spec E.a)
  intro a ha
  apply Triple.bind one_spec
  intro one hone
  apply Triple.bind zero_spec
  intro zero hzero
  apply Triple.bind (isZero_spec hX.y)
  intro pIsIdentity hpIsIdentity
  apply Triple.bind (isZero_spec hY.y)
  intro qIsIdentity hqIsIdentity
  apply Triple.bind (sub_spec hY.x hX.x)
  intro dx hdx
  apply Triple.bind (sub_spec hY.y hX.y)
  intro dy hdy
  apply Triple.bind (isZero_spec hdx)
  intro sameX hsameX
  have hsame : Y.x - X.x = 0 ↔ X.x = Y.x := sub_eq_zero.trans eq_comm
  rw [if_congr hsame rfl rfl] at hsameX
  apply Triple.bind (add_spec hX.y hY.y)
  intro ySum hySum
  apply Triple.bind (isZero_spec hySum)
  intro oppositeY hoppositeY
  apply Triple.bind_with (slopeHint_spec htwo hX hY)
  rintro slope ⟨s, hs, hhonest⟩
  -- the hint of the witness pass satisfies both
  have hvanish (hw : w.Honest) := (Coordinates.isSlope_iff htwo').mp
    ((hhonest hw) ▸ Coordinates.isSlope_slope X Y (E.a : ZMod E.base.modulus))
  apply Triple.bind (assertChord_spec hs hdx hdy fun hw => (hvanish hw).1)
  intro _ hchord
  apply Triple.bind
    (assertTangent_spec hX hs hone ha hpIsIdentity hsameX hoppositeY fun hw => (hvanish hw).2)
  intro _ htangent
  -- in every accepted table the two assertions leave no other slope where one is needed
  have hslope := (Coordinates.isSlope_iff htwo').mpr ⟨hchord, htangent⟩
  apply Triple.bind (addWithSlope_spec hX hY hs)
  intro generic hgeneric
  apply Triple.bind (mul_spec hsameX hoppositeY)
  intro opposite hopposite
  rw [Coordinates.mul_ite_one] at hopposite
  apply Triple.bind (blendIf_spec hopposite hzero hgeneric.x)
  intro x hx
  apply Triple.bind (blendIf_spec hopposite hzero hgeneric.y)
  intro y hy
  apply Triple.bind (blendIf_spec hqIsIdentity hX.x hx)
  intro x hx
  apply Triple.bind (blendIf_spec hqIsIdentity hX.y hy)
  intro y hy
  apply Triple.bind (blendIf_spec hpIsIdentity hY.x hx)
  intro x hx
  apply Triple.bind (blendIf_spec hpIsIdentity hY.y hy)
  intro y hy
  apply Triple.bind (assertCanonical_spec hx)
  intro _ hx
  apply Triple.bind (assertCanonical_spec hy)
  intro _ hy
  apply Triple.pure
  -- the blends come in the order of the cases of the sum, innermost first
  refine ⟨s, hslope, hhonest, ?_, ?_, hs, hpIsIdentity, hqIsIdentity, hsameX, hoppositeY⟩
  · unfold Coordinates.sumWithSlope
    rw [apply_ite Coordinates.x, apply_ite Coordinates.x, apply_ite Coordinates.x]
    exact hx
  · unfold Coordinates.sumWithSlope
    rw [apply_ite Coordinates.y, apply_ite Coordinates.y, apply_ite Coordinates.y]
    exact hy

theorem completeSum_spec (htwo : E.base.modulus ≠ 2) (hX : w.At p X) (hY : w.At q Y)
    (hXy : X.y = 0 → X.x = 0) (hYy : Y.y = 0 → Y.x = 0) :
    w.Triple (Gadget.completeSum E p q) (Sums w E X Y) := by
  apply Triple.weaken (completeSum_blends htwo hX hY)
  rintro r ⟨s, h⟩
  have hsum := Coordinates.add_eq_of_isSlope h.isSlope hXy hYy
  refine ⟨?_, ?_, ⟨s, h.slope, h.isSlope⟩, h.pIsIdentity, h.qIsIdentity, h.sameX, h.oppositeY⟩
  · rw [hsum]
    exact h.x
  · rw [hsum]
    exact h.y

end Scenario

end ForeignCurve
