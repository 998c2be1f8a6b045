import ForeignCurve.Instruction.Emission
import ForeignCurve.Proofs.Constraint.Calls

namespace ForeignCurve

open Emitter ForeignCurve.Graph

variable {e : Emitter}

theorem asserts_constraints {vs : List NodeId} {xs : List Expr} (h : e.graph.DenoteAll vs xs) :
    e.Asserts (vs.forM constraint) (.ok (xs.map .vanishes)) := by
  apply asserts_forM
  rw [List.forall₂_map_right_iff]
  exact h.imp fun v x hv e' hle => asserts_constraint (e := e') (hv.mono hle)

namespace LimbOperand

theorem builds_emit (e : Emitter) (o : LimbOperand) : e.Builds o.emit (o.values e.cells) DenoteAll := by
  cases o with
  | cells s => exact e.builds_slice s
  | const limbs =>
    refine (builds_lift e (Native.ofWords limbs)).bind fun words words' e₁ h₁ hwords => ?_
    subst hwords
    exact builds_constPoly words

end LimbOperand

namespace LimbSum

section Limb

variable {e' : Emitter} {a : NodeId} {x : Expr} {carry : Option NodeId} {c : Option Expr}
  (hle : e.graph ≤ e'.graph) (ha : e'.graph.Denotes a x) (hcarry : Option.Rel e.graph.Denotes carry c)

include hle ha hcarry

theorem builds_addCarryIn :
    e'.Builds (addCarryIn a carry) (.ok (c.elim x (Arith.add x))) Denotes := by
  cases hcarry with
  | none => exact Builds.pure ha
  | some hc => exact builds_add ha (hc.mono hle)

theorem builds_addCarryOut (base : Native) :
    e'.Builds (addCarryOut base a carry)
      (.ok (c.elim x fun c => Arith.add x (Arith.mulConst c base))) Denotes := by
  cases hcarry with
  | none => exact Builds.pure ha
  | some hc =>
    refine (builds_mulConst (hc.mono hle) base).step fun shifted e₁ h₁ hshifted => ?_
    exact builds_add (ha.mono h₁.graph) hshifted

end Limb

theorem asserts_emitLimbs (base : Native) {carryIn : Option NodeId} {c : Option Expr}
    {as bs rs carries : List NodeId} {xs ys zs cs : List Expr}
    (hcarry : Option.Rel e.graph.Denotes carryIn c) (ha : e.graph.DenoteAll as xs)
    (hb : e.graph.DenoteAll bs ys) (hr : e.graph.DenoteAll rs zs)
    (hc : e.graph.DenoteAll carries cs) :
    e.Asserts (emitLimbs base carryIn as bs rs carries)
      (.ok ((differences base c xs ys zs cs).map .vanishes)) := by
  induction as generalizing e carryIn c bs rs carries xs ys zs cs with
  | nil =>
    cases ha
    exact .nothing e
  | cons a as ih =>
    cases ha with
    | @cons _ x _ xs ha has =>
      cases hb with
      | nil => exact .nothing e
      | @cons b y bs ys hb hbs =>
        cases hr with
        | nil => exact .nothing e
        | @cons r z rs zs hr hrs =>
          refine (builds_add ha hb).step fun lhs e₁ h₁ hlhs => ?_
          refine (builds_addCarryIn h₁.graph hlhs hcarry).step fun lhs e₂ h₂ hlhs => ?_
          have h₀₂ := le_trans h₁.graph h₂.graph
          -- The carry out of this limb is the carry into the next: its absence means the same to both sides.
          have hhead : Option.Rel e.graph.Denotes carries.head? cs.head? := by
            cases hc with
            | nil => exact .none
            | cons hc _ => exact .some hc
          refine (builds_addCarryOut h₀₂ (hr.mono h₀₂) hhead base).step fun rhs e₃ h₃ hrhs => ?_
          refine (builds_sub (hlhs.mono h₃.graph) hrhs).step fun d e₄ h₄ hd => ?_
          have hdifferences : differences base c (x :: xs) (y :: ys) (z :: zs) cs =
              Arith.sub (c.elim (Arith.add x y) (Arith.add (Arith.add x y)))
                  (cs.head?.elim z fun c => Arith.add z (Arith.mulConst c base)) ::
                differences base cs.head? xs ys zs cs.tail := by
            cases c <;> cases cs <;> rfl
          rw [hdifferences]
          refine (asserts_constraint hd).seq
            (y := .ok ((differences base cs.head? xs ys zs cs.tail).map .vanishes)) fun e₅ h₅ => ?_
          have h₀₅ := le_trans h₀₂ (le_trans h₃.graph (le_trans h₄.graph h₅.graph))
          have hmono := fun {ids xs} (h : e.graph.DenoteAll ids xs) => h.mono h₀₅
          cases hc with
          | nil => exact ih .none (hmono has) (hmono hbs) (hmono hrs) .nil
          | cons hc hcs =>
            exact ih (.some (hc.mono h₀₅)) (hmono has) (hmono hbs) (hmono hrs) (hmono hcs)

theorem asserts_emit (e : Emitter) (s : LimbSum) : e.Asserts s.emit (s.assertions e.cells) := by
  unfold emit assertions
  refine (e.builds_slice s.a).bind fun a xs e₁ h₁ ha => ?_
  rw [← h₁.cells]
  refine (s.b.builds_emit e₁).bind fun b ys e₂ h₂ hb => ?_
  rw [← h₂.cells]
  refine (s.result.builds_emit e₂).bind fun r zs e₃ h₃ hr => ?_
  rw [← h₃.cells]
  refine (builds_cells e₃ Register.start s.carries.toList).bind fun carries cs e₄ h₄ hc => ?_
  split
  · refine (builds_lift e₄ (Native.ofWord (2 ^ s.limbBits))).bind fun base base' e₅ h₅ hbase => ?_
    subst hbase
    have h₃₅ := le_trans h₄.graph h₅.graph
    have h₂₅ := le_trans h₃.graph h₃₅
    exact asserts_emitLimbs base .none (ha.mono (le_trans h₂.graph h₂₅)) (hb.mono h₂₅)
      (hr.mono h₃₅) (hc.mono h₅.graph)
  · exact ⟨e₄, rfl⟩

end LimbSum

namespace Identity

variable {P : FieldParams}

theorem asserts_emitQuotient {vanishing low high : List NodeId} {xs ls hs : List Expr}
    (hx : e.graph.DenoteAll vanishing xs) (hlow : e.graph.DenoteAll low ls)
    (hhigh : e.graph.DenoteAll high hs) :
    e.Asserts (emitQuotient P vanishing low high)
      (.ok ((quotientConstraints P xs ls hs).map .vanishes)) := by
  unfold emitQuotient quotientConstraints
  refine (builds_const _).step fun limb e₁ h₁ hlimb => ?_
  refine (builds_polyScale (hhigh.mono h₁.graph) hlimb).step fun high e₂ h₂ hhigh => ?_
  have h₀₂ := le_trans h₁.graph h₂.graph
  refine (builds_polyAdd (hlow.mono h₀₂) hhigh).step fun shifted e₃ h₃ hshifted => ?_
  refine (builds_const _).step fun offset e₄ h₄ hoffset => ?_
  refine (builds_polyShift (hshifted.mono h₄.graph) hoffset).step fun w e₅ h₅ hw => ?_
  refine (builds_polyMulConst hw _).step fun multiple e₆ h₆ hmultiple => ?_
  have h₃₆ := le_trans h₄.graph (le_trans h₅.graph h₆.graph)
  have h₀₆ := le_trans h₀₂ (le_trans h₃.graph h₃₆)
  refine (builds_polySub (hx.mono h₀₆) hmultiple).step fun ds e₇ h₇ hds => ?_
  exact asserts_constraints hds

theorem asserts_emit (e : Emitter) {combine : List NodeId → List NodeId → Emit (List NodeId)}
    {combine' : List Expr → List Expr → List Expr}
    (hcombine : ∀ {e' : Emitter} {as bs xs ys}, e'.graph.DenoteAll as xs → e'.graph.DenoteAll bs ys →
      e'.Builds (combine as bs) (.ok (combine' xs ys)) DenoteAll)
    (m : Identity P) : e.Asserts (m.emit combine) (m.assertions combine' e.cells) := by
  unfold emit assertions
  refine (e.builds_slice m.a.slice).bind fun a as e₁ h₁ ha => ?_
  rw [← h₁.cells]
  refine (e₁.builds_slice m.b.slice).bind fun b bs e₂ h₂ hb => ?_
  rw [← h₂.cells]
  refine (e₂.builds_slice m.result.slice).bind fun r rs e₃ h₃ hr => ?_
  rw [← h₃.cells]
  refine (e₃.builds_slice m.carry.slice).bind fun c cs e₄ h₄ hc => ?_
  have h₂₄ := le_trans h₃.graph h₄.graph
  refine (hcombine (ha.mono (le_trans h₂.graph h₂₄)) (hb.mono h₂₄)).step fun lhs e₅ h₅ hlhs => ?_
  have h₃₅ := le_trans h₄.graph h₅.graph
  refine (builds_polySub hlhs (hr.mono h₃₅)).step fun lhs e₆ h₆ hlhs => ?_
  refine (builds_lift e₆ (P.encode P.modulus)).bind fun modulus modulus' e₇ h₇ hmodulus => ?_
  subst hmodulus
  refine (builds_constPoly modulus).step fun modulus e₈ h₈ hmodulus => ?_
  have h₆₈ := le_trans h₇.graph h₈.graph
  have h₄₈ := le_trans h₅.graph (le_trans h₆.graph h₆₈)
  refine (builds_polyMul (hc.mono h₄₈) hmodulus).step fun multiple e₉ h₉ hmultiple => ?_
  refine (builds_polySub (hlhs.mono (le_trans h₆₈ h₉.graph)) hmultiple).step
    fun vanishing e₁₀ h₁₀ hvanishing => ?_
  have hcells : e₁₀.cells = e₃.cells := by
    rw [h₁₀.cells, h₉.cells, h₈.cells, h₇.cells, h₆.cells, h₅.cells, h₄.cells]
  rw [← hcells]
  refine (builds_cells e₁₀ Register.start m.low.toList).bind fun low ls e₁₁ h₁₁ hlow => ?_
  rw [← h₁₁.cells]
  refine (builds_cells e₁₁ Register.start m.high.toList).bind fun high hs e₁₂ h₁₂ hhigh => ?_
  exact asserts_emitQuotient (hvanishing.mono (le_trans h₁₁.graph h₁₂.graph)) (hlow.mono h₁₂.graph)
    hhigh

end Identity

namespace Instruction

theorem asserts_emitConstants {vs : List NodeId} {xs : List Expr} (h : e.graph.DenoteAll vs xs)
    (cs : List Native) :
    e.Asserts (emitConstants vs cs)
      ((zipExact xs cs).map (List.map fun (v, c) => .vanishes (Arith.subConst v c))) := by
  induction vs generalizing e xs cs with
  | nil =>
    cases h
    cases cs with
    | nil => exact .nothing e
    | cons c cs => exact ⟨e, rfl⟩
  | cons v vs ih =>
    cases h with
    | @cons _ x _ xs hv hvs =>
      cases cs with
      | nil => exact ⟨e, rfl⟩
      | cons c cs =>
        refine (builds_subConst hv c).step fun d e₁ h₁ hd => ?_
        have hrest := (asserts_constraint hd).seq fun e₂ h₂ =>
          ih (DenoteAll.mono hvs (le_trans h₁.graph h₂.graph)) cs
        rw [zipExact]
        -- Lists of unequal lengths are refused at their end, after the constraints of the pairs before it.
        cases hzip : zipExact xs cs with
        | error err =>
          rw [hzip] at hrest
          exact hrest
        | ok pairs =>
          rw [hzip] at hrest
          exact hrest

theorem asserts_emitSelect (e : Emitter) (bit : Register .bit) (ifTrue ifFalse result : CellSlice) :
    e.Asserts (emitSelect bit ifTrue ifFalse result)
      (selectAssertions bit ifTrue ifFalse result e.cells) := by
  unfold emitSelect selectAssertions
  refine (e.builds_cell bit.start).bind fun b x e₁ h₁ hb => ?_
  rw [← h₁.cells]
  refine (e₁.builds_slice ifTrue).bind fun ts xs e₂ h₂ hts => ?_
  rw [← h₂.cells]
  refine (e₂.builds_slice ifFalse).bind fun fs ys e₃ h₃ hfs => ?_
  rw [← h₃.cells]
  refine (e₃.builds_slice result).bind fun rs zs e₄ h₄ hrs => ?_
  have h₂₄ := le_trans h₃.graph h₄.graph
  have hzip := forall₂_zip (forall₂_zip (hts.mono h₂₄) (hfs.mono h₄.graph)) hrs
  apply asserts_forM
  rw [List.forall₂_map_right_iff]
  refine hzip.imp fun p q hpq e' hle => ?_
  obtain ⟨⟨t, f⟩, r⟩ := p
  obtain ⟨⟨u, v⟩, w⟩ := q
  obtain ⟨⟨ht, hf⟩, hr⟩ := hpq
  refine (builds_sub (e := e') (ht.mono hle) (hf.mono hle)).step fun delta e₅ h₅ hdelta => ?_
  have h₁₅ := le_trans h₂.graph (le_trans h₂₄ (le_trans hle h₅.graph))
  refine (builds_mul (hb.mono h₁₅) hdelta).step fun scaled e₆ h₆ hscaled => ?_
  have h₄₆ := le_trans hle (le_trans h₅.graph h₆.graph)
  refine (builds_add (hf.mono h₄₆) hscaled).step fun expected e₇ h₇ hexpected => ?_
  exact asserts_assertEqual (hr.mono (le_trans h₄₆ h₇.graph)) hexpected

theorem builds_emitWeightedSum {acc : NodeId} {x : Expr} (power : Native) {vs : List NodeId}
    {xs : List Expr} (hacc : e.graph.Denotes acc x) (h : e.graph.DenoteAll vs xs) :
    e.Builds (emitWeightedSum acc power vs) (.ok (weightedSum x power xs)) Denotes := by
  induction vs generalizing e acc x power xs with
  | nil =>
    cases h
    exact Builds.pure hacc
  | cons v vs ih =>
    cases h with
    | cons hv hvs =>
      refine (builds_mulConst hv power).step fun term e₁ h₁ hterm => ?_
      refine (builds_add (hacc.mono h₁.graph) hterm).step fun acc e₂ h₂ hacc => ?_
      exact ih _ hacc (DenoteAll.mono hvs (le_trans h₁.graph h₂.graph))

theorem asserts_emitDecompose (e : Emitter) (value : Register .element) (bits : RegisterArray .bit) :
    e.Asserts (emitDecompose value bits) (decomposeAssertions value bits e.cells) := by
  unfold emitDecompose decomposeAssertions
  refine (e.builds_cell value.start).bind fun v x e₁ h₁ hv => ?_
  rw [← h₁.cells]
  refine (builds_cells e₁ Register.start bits.toList).bind fun vs xs e₂ h₂ hvs => ?_
  refine (builds_const 0).step fun acc e₃ h₃ hacc => ?_
  refine (builds_emitWeightedSum 1 hacc (hvs.mono h₃.graph)).step fun acc e₄ h₄ hacc => ?_
  have h₁₄ := le_trans h₂.graph (le_trans h₃.graph h₄.graph)
  exact asserts_assertEqual hacc (hv.mono h₁₄)

theorem asserts_emit (e : Emitter) (i : Instruction) :
    e.Asserts i.emit (i.assertions e.cells >>= Assertion.checked) := by
  cases i with
  | copy source target => exact e.asserts_link source target
  | constant target values assign =>
    refine Asserts.checked ?_
    refine (e.builds_slice target).bind fun vs xs e₁ h₁ hvs => ?_
    exact asserts_emitConstants hvs values
  | boolean cells =>
    refine Asserts.checked ?_
    refine (e.builds_slice cells).bind fun vs xs e₁ h₁ hvs => ?_
    apply asserts_forM
    rw [List.forall₂_map_right_iff]
    refine hvs.imp fun v x hv e' hle => ?_
    refine (builds_mul (e := e') (hv.mono hle) (hv.mono hle)).step fun square e₂ h₂ hsquare => ?_
    exact asserts_assertEqual hsquare (hv.mono (le_trans hle h₂.graph))
  | range bits cells =>
    refine Asserts.checked ?_
    refine (e.builds_slice cells).bind fun vs xs e₁ h₁ hvs => ?_
    apply asserts_forM
    rw [List.forall₂_map_right_iff]
    exact hvs.imp fun v x hv e' hle => asserts_lookup (e := e') _ (.cons (hv.mono hle) .nil)
  | select bit ifTrue ifFalse result =>
    exact (asserts_emitSelect e bit ifTrue ifFalse result).checked
  | decompose value bits => exact (asserts_emitDecompose e value bits).checked
  | limbSum sum => exact (sum.asserts_emit e).checked
  | fieldSum P m | fieldDifference P m =>
    exact (m.asserts_emit e fun ha hb => builds_polyAdd ha hb).checked
  | fieldProduct P m => exact (m.asserts_emit e fun ha hb => builds_polyMul ha hb).checked
  | greaterThan | inverse | slope => exact Asserts.checked (.nothing e)

end Instruction

end ForeignCurve
