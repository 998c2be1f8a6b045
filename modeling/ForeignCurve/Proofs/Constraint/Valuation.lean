import ForeignCurve.Constraint.ArithM
import ForeignCurve.Proofs.Coefficients
import ForeignCurve.Proofs.Except

namespace ForeignCurve

namespace ArithM

section Yields

variable {ε σ α : Type}

def Yields (le : σ → σ → Prop) (s : σ) (x : EStateM ε σ α) (R : σ → α → Prop) : Prop :=
  ∃ a s', x s = .ok a s' ∧ le s s' ∧ R s' a

theorem Yields.imp {le : σ → σ → Prop} {s : σ} {x : EStateM ε σ α} {R R' : σ → α → Prop} (h : Yields le s x R)
    (hR : ∀ a s', le s s' → R s' a → R' s' a) : Yields le s x R' := by
  obtain ⟨a, s', hx, hle, ha⟩ := h
  exact ⟨a, s', hx, hle, hR a s' hle ha⟩

end Yields

/--
What variables stand for. It may depend on the state in which they were made, and does not change in the
states that come after it. Constants and ring operations return variables for their values.
-/
structure Valuation (ε σ : Type) {F V W : Type} [ArithM F V (EStateM ε σ)] [Add W] [Sub W] [Neg W] [Mul W]
    (ofConst : F → W) where
  le : σ → σ → Prop
  value : σ → V → W → Prop
  refl : ∀ s, le s s
  trans : ∀ {s s' s'' : σ}, le s s' → le s' s'' → le s s''
  mono : ∀ {s s' : σ} {a : V} {x : W}, le s s' → value s a x → value s' a x
  const : ∀ (s : σ) (c : F), Yields le s (ArithM.const c : EStateM ε σ V) (value · · (ofConst c))
  add : ∀ {s : σ} {a b : V} {x y : W}, value s a x → value s b y →
    Yields le s (ArithM.add a b : EStateM ε σ V) (value · · (x + y))
  sub : ∀ {s : σ} {a b : V} {x y : W}, value s a x → value s b y →
    Yields le s (ArithM.sub a b : EStateM ε σ V) (value · · (x - y))
  neg : ∀ {s : σ} {a : V} {x : W}, value s a x →
    Yields le s (ArithM.neg a : EStateM ε σ V) (value · · (-x))
  mul : ∀ {s : σ} {a b : V} {x y : W}, value s a x → value s b y →
    Yields le s (ArithM.mul a b : EStateM ε σ V) (value · · (x * y))

section Slots

variable {V : Type}

def slots (vs : List V) (n : Nat) : Array (Option V) :=
  (vs.map some ++ List.replicate (n - vs.length) none).toArray

variable {done rest : List V} {n : Nat}

theorem slots_nil (n : Nat) : slots ([] : List V) n = .replicate n none := by
  simp [slots]

theorem getElem?_slots_cons (v : V) : (slots (done ++ v :: rest) n)[done.length]?.join = some v := by
  simp [slots]

theorem getElem?_slots_length : (slots done n)[done.length]?.join = none := by
  unfold slots
  rw [List.getElem?_toArray, List.getElem?_append_right (Nat.le_of_eq (List.length_map _)),
    List.getElem?_replicate]
  split <;> rfl

theorem setIfInBounds_slots_cons (v w : V) :
    (slots (done ++ v :: rest) n).setIfInBounds done.length (some w) = slots (done ++ w :: rest) n := by
  simp [slots]

theorem setIfInBounds_slots_length (h : done.length < n) (w : V) :
    (slots done n).setIfInBounds done.length (some w) = slots (done ++ [w]) n := by
  have hfree : List.replicate (n - done.length) (none : Option V) =
      none :: List.replicate (n - (done ++ [w]).length) none := by
    rw [← List.replicate_succ, List.length_append, List.length_singleton]
    congr 1
    omega
  unfold slots
  rw [hfree]
  simp

theorem filterMap_slots (vs : List V) (n : Nat) : (slots vs n).toList.filterMap id = vs := by
  simp [slots]

end Slots

namespace Valuation

variable {ε σ F V W : Type} [ArithM F V (EStateM ε σ)] [Add W] [Sub W] [Neg W] [Mul W] {ofConst : F → W}
  (ν : Valuation ε σ ofConst) {s s' : σ}

def Values (s : σ) (vs : List V) (xs : List W) : Prop :=
  List.Forall₂ (ν.value s) vs xs

section Calls

variable {α β : Type} {R : σ → α → Prop} {R' : σ → β → Prop}

theorem pure {a : α} (h : R s a) : Yields ν.le s (pure a : EStateM ε σ α) R :=
  ⟨a, s, rfl, ν.refl s, h⟩

theorem bind {x : EStateM ε σ α} {f : α → EStateM ε σ β} (hx : Yields ν.le s x R)
    (hf : ∀ a s', ν.le s s' → R s' a → Yields ν.le s' (f a) R') : Yields ν.le s (x >>= f) R' := by
  obtain ⟨a, s', hx, hle, ha⟩ := hx
  obtain ⟨b, s'', hf, hle', hb⟩ := hf a s' hle ha
  exact ⟨b, s'', run_bind_eq_ok_iff.mpr ⟨a, s', hx, hf⟩, ν.trans hle hle', hb⟩

variable {ν}

theorem Values.mono {vs : List V} {xs : List W} (h : ν.Values s vs xs) (hle : ν.le s s') : ν.Values s' vs xs :=
  h.imp fun _ _ => ν.mono hle

theorem Values.tail {vs : List V} {xs : List W} (h : ν.Values s vs xs) : ν.Values s vs.tail xs.tail := by
  cases h with
  | nil => exact .nil
  | cons _ hrest => exact hrest

def Returns (ν : Valuation ε σ ofConst) (s : σ) (f : α → EStateM ε σ V) (as : List α) (xs : List W) : Prop :=
  List.Forall₂ (fun a x => ∀ s', ν.le s s' → Yields ν.le s' (f a) (ν.value · · x)) as xs

theorem Returns.mono {f : α → EStateM ε σ V} {as : List α} {xs : List W} (h : ν.Returns s f as xs)
    (hle : ν.le s s') : ν.Returns s' f as xs :=
  h.imp fun _ _ hf s'' hle' => hf s'' (ν.trans hle hle')

theorem mapM {f : α → EStateM ε σ V} {as : List α} {xs : List W} (h : ν.Returns s f as xs) :
    Yields ν.le s (as.mapM f) (ν.Values · · xs) := by
  induction as generalizing s xs with
  | nil =>
    cases h
    exact ν.pure .nil
  | cons a as ih =>
    cases h with
    | cons ha has =>
      rw [List.mapM_cons]
      refine ν.bind (ha s (ν.refl s)) fun v s₁ h₁ hv => ?_
      refine ν.bind (ih (Returns.mono has h₁)) fun vs s₂ h₂ hvs => ?_
      exact ν.pure (.cons (ν.mono h₂ hv) hvs)

end Calls

section Polynomials

variable {as bs : List V} {xs ys : List W} {a b : V} {x y : W}

theorem addConst (ha : ν.value s a x) (c : F) :
    Yields ν.le s (ArithM.addConst a c : EStateM ε σ V) (ν.value · · (x + ofConst c)) :=
  ν.bind (ν.const s c) fun _ _ hle hc => ν.add (ν.mono hle ha) hc

theorem subConst (ha : ν.value s a x) (c : F) :
    Yields ν.le s (ArithM.subConst a c : EStateM ε σ V) (ν.value · · (x - ofConst c)) :=
  ν.bind (ν.const s c) fun _ _ hle hc => ν.sub (ν.mono hle ha) hc

theorem mulConst (ha : ν.value s a x) (c : F) :
    Yields ν.le s (ArithM.mulConst a c : EStateM ε σ V) (ν.value · · (x * ofConst c)) :=
  ν.bind (ν.const s c) fun _ _ hle hc => ν.mul (ν.mono hle ha) hc

theorem constPoly (s : σ) (cs : List F) :
    Yields ν.le s (ArithM.constPoly cs : EStateM ε σ (List V)) (ν.Values · · (cs.map ofConst)) := by
  apply mapM
  rw [Returns, List.forall₂_map_right_iff, List.forall₂_same]
  exact fun c _ s' _ => ν.const s' c

theorem polyAdd (ha : ν.Values s as xs) (hb : ν.Values s bs ys) :
    Yields ν.le s (ArithM.polyAdd as bs : EStateM ε σ (List V)) (ν.Values · · (Poly.addCoeffs xs ys)) := by
  induction as generalizing s bs xs ys with
  | nil =>
    cases ha
    exact ν.pure hb
  | cons a as ih =>
    cases ha with
    | cons ha has =>
      cases hb with
      | nil => exact ν.pure (.cons ha has)
      | cons hb hbs =>
        refine ν.bind (ν.add ha hb) fun c s₁ h₁ hc => ?_
        refine ν.bind (ih (Values.mono has h₁) (Values.mono hbs h₁)) fun cs s₂ h₂ hcs => ?_
        exact ν.pure (.cons (ν.mono h₂ hc) hcs)

theorem polySub (ha : ν.Values s as xs) (hb : ν.Values s bs ys) :
    Yields ν.le s (ArithM.polySub as bs : EStateM ε σ (List V)) (ν.Values · · (Poly.subCoeffs xs ys)) := by
  induction as generalizing s bs xs ys with
  | nil =>
    cases ha
    apply mapM
    rw [Returns, Poly.subCoeffs, List.forall₂_map_right_iff]
    exact hb.imp fun b y hb s' hle => ν.neg (ν.mono hle hb)
  | cons a as ih =>
    cases ha with
    | cons ha has =>
      cases hb with
      | nil => exact ν.pure (.cons ha has)
      | cons hb hbs =>
        refine ν.bind (ν.sub ha hb) fun c s₁ h₁ hc => ?_
        refine ν.bind (ih (Values.mono has h₁) (Values.mono hbs h₁)) fun cs s₂ h₂ hcs => ?_
        exact ν.pure (.cons (ν.mono h₂ hc) hcs)

theorem polyShift (ha : ν.Values s as xs) (hb : ν.value s b y) :
    Yields ν.le s (ArithM.polyShift as b : EStateM ε σ (List V)) (ν.Values · · (xs.map (· - y))) := by
  apply mapM
  rw [Returns, List.forall₂_map_right_iff]
  exact ha.imp fun a x ha s' hle => ν.sub (ν.mono hle ha) (ν.mono hle hb)

theorem polyScale (ha : ν.Values s as xs) (hb : ν.value s b y) :
    Yields ν.le s (ArithM.polyScale as b : EStateM ε σ (List V)) (ν.Values · · (xs.map (· * y))) := by
  apply mapM
  rw [Returns, List.forall₂_map_right_iff]
  exact ha.imp fun a x ha s' hle => ν.mul (ν.mono hle ha) (ν.mono hle hb)

section Product

variable {ν} {β : Type} {bs : List β} {done acc : List V} {zs ws : List W} {n : Nat}

def Holds (ν : Valuation ε σ ofConst) (done : List V) (n : Nat) (zs : List W) (s : σ)
    (taken : Array (Option V)) : Prop :=
  ∃ acc, taken = slots (done ++ acc) n ∧ ν.Values s acc zs

theorem Holds.cons {taken : Array (Option V)} (h : ν.Holds (done ++ [a]) n zs s taken) (ha : ν.value s a x) :
    ν.Holds done n (x :: zs) s taken := by
  obtain ⟨acc, rfl, hacc⟩ := h
  exact ⟨a :: acc, by rw [List.append_assoc, List.singleton_append], .cons ha hacc⟩

theorem accumulate {w : W} (hacc : ν.Values s acc zs) (ha : ν.value s a w) (hn : done.length < n) :
    Yields ν.le s (ArithM.accumulate (slots (done ++ acc) n)[done.length]?.join a : EStateM ε σ V)
      fun s' c => ∃ x, ν.value s' c x ∧ (∀ ws, Poly.addCoeffs zs (w :: ws) = x :: Poly.addCoeffs zs.tail ws) ∧
        (slots (done ++ acc) n).setIfInBounds done.length (some c) = slots (done ++ [c] ++ acc.tail) n := by
  cases hacc with
  | nil =>
    rw [List.append_nil, getElem?_slots_length]
    refine ν.pure ⟨w, ha, fun ws => rfl, ?_⟩
    rw [setIfInBounds_slots_length hn, List.tail_nil, List.append_nil]
  | @cons d z ds zs hd hds =>
    rw [getElem?_slots_cons]
    refine (ν.add hd ha).imp fun c s' hle hc => ⟨z + w, hc, fun ws => rfl, ?_⟩
    rw [setIfInBounds_slots_cons, List.append_assoc, List.singleton_append, List.tail_cons]

theorem addRow {product : β → EStateM ε σ V} (hacc : ν.Values s acc zs) (hrow : ν.Returns s product bs ws)
    (hn : done.length + bs.length ≤ n) :
    Yields ν.le s (ArithM.addRow product done.length bs (slots (done ++ acc) n))
      (ν.Holds done n (Poly.addCoeffs zs ws)) := by
  induction bs generalizing s done acc zs ws with
  | nil =>
    cases hrow
    rw [Poly.addCoeffs_nil]
    exact ν.pure ⟨acc, rfl, hacc⟩
  | cons b bs ih =>
    rw [List.length_cons] at hn
    cases hrow with
    | @cons _ w _ ws hb hbs =>
      refine ν.bind (hb s (ν.refl s)) fun ab s₁ h₁ hab => ?_
      refine ν.bind (accumulate (Values.mono hacc h₁) hab (by omega)) fun c s₂ h₂ hc => ?_
      obtain ⟨x, hx, hsum, hslots⟩ := hc
      have hle := ν.trans h₁ h₂
      have hrest : Yields ν.le s₂
          (ArithM.addRow product (done ++ [c]).length bs (slots (done ++ [c] ++ acc.tail) n))
          (ν.Holds (done ++ [c]) n (Poly.addCoeffs zs.tail ws)) :=
        ih (Values.tail (Values.mono hacc hle)) (Returns.mono hbs hle)
          (by rw [List.length_append, List.length_singleton]; omega)
      rw [List.length_append, List.length_singleton] at hrest
      rw [hslots, hsum]
      exact hrest.imp fun taken s' hle h => h.cons (ν.mono hle hx)

theorem addRows {product : V → β → EStateM ε σ V} {row : W → List W}
    (hrow : ∀ {s' : σ} {a : V} {x : W}, ν.le s s' → ν.value s' a x → ν.Returns s' (product a) bs (row x))
    (hacc : ν.Values s acc zs) (ha : ν.Values s as xs) (hbs : bs ≠ [])
    (hn : done.length + as.length + bs.length ≤ n + 1) :
    Yields ν.le s (ArithM.addRows product bs done.length as (slots (done ++ acc) n))
      (ν.Holds done n (Poly.sumRows row zs xs)) := by
  -- with every row, the slots of one more coefficient are done
  induction as generalizing s done acc zs xs with
  | nil =>
    cases ha
    exact ν.pure ⟨acc, rfl, hacc⟩
  | cons a as ih =>
    cases ha with
    | @cons _ x _ xs ha has =>
      rw [List.length_cons] at hn
      have hfirst := hrow (ν.refl s) ha
      refine ν.bind (addRow hacc hfirst (by omega)) fun taken s₁ h₁ htaken => ?_
      obtain ⟨acc', rfl, hacc'⟩ := htaken
      have hpos : 0 < (Poly.addCoeffs zs (row x)).length := by
        have hlen := List.length_pos_iff.mpr hbs
        rw [Poly.length_addCoeffs, ← hfirst.length_eq]
        omega
      -- The row reached the slot of this coefficient, so the sum has a head: it is done and joins `done`.
      rw [Poly.sumRows]
      generalize Poly.addCoeffs zs (row x) = sum at hacc' hpos
      cases hacc' with
      | nil => contradiction
      | @cons c z cs zs' hc hcs =>
        have hrest : Yields ν.le s₁
            (ArithM.addRows product bs (done ++ [c]).length as (slots (done ++ [c] ++ cs) n))
            (ν.Holds (done ++ [c]) n (Poly.sumRows row zs' xs)) := by
          refine ih (fun hle => hrow (ν.trans h₁ hle)) hcs (Values.mono has h₁) ?_
          rw [List.length_append, List.length_singleton]
          omega
        rw [List.length_append, List.length_singleton, List.append_assoc, List.singleton_append] at hrest
        exact hrest.imp fun taken s' hle h => h.cons (ν.mono hle hc)

theorem convolve {product : V → β → EStateM ε σ V} {row : W → List W}
    (hrow : ∀ {s' : σ} {a : V} {x : W}, ν.le s s' → ν.value s' a x → ν.Returns s' (product a) bs (row x))
    (hnil : bs = [] → ∀ x, row x = []) (ha : ν.Values s as xs) :
    Yields ν.le s (ArithM.convolve product as bs) (ν.Values · · (Poly.sumRows row [] xs)) := by
  unfold ArithM.convolve
  by_cases hempty : as = [] ∨ bs = []
  · rw [if_pos (by simpa using hempty)]
    have hsum : Poly.sumRows row [] xs = [] := by
      obtain rfl | hbs := hempty
      · cases ha
        rfl
      · exact Poly.sumRows_of_nil (hnil hbs) xs
    rw [hsum]
    exact ν.pure .nil
  · rw [if_neg (by simpa using hempty), ← slots_nil]
    rw [not_or] at hempty
    have hpos := List.length_pos_iff.mpr hempty.1
    have hrows : Yields ν.le s
        (ArithM.addRows product bs ([] : List V).length as (slots ([] ++ []) (as.length + bs.length - 1)))
        (ν.Holds [] (as.length + bs.length - 1) (Poly.sumRows row [] xs)) :=
      addRows hrow .nil ha hempty.2 (by rw [List.length_nil]; omega)
    refine ν.bind hrows fun taken s' hle h => ?_
    obtain ⟨vs, rfl, hvs⟩ := h
    rw [List.nil_append, filterMap_slots]
    exact ν.pure hvs

end Product

theorem polyMul (ha : ν.Values s as xs) (hb : ν.Values s bs ys) :
    Yields ν.le s (ArithM.polyMul as bs : EStateM ε σ (List V))
      (ν.Values · · (Poly.sumRows (fun x => ys.map (x * ·)) [] xs)) := by
  refine convolve (fun {s' a x} hle hx => ?_) ?_ ha
  · rw [Returns, List.forall₂_map_right_iff]
    exact hb.imp fun b y hb s'' hle' => ν.mul (ν.mono hle' hx) (ν.mono (ν.trans hle hle') hb)
  · rintro rfl x
    cases hb
    rfl

theorem polyMulConst (ha : ν.Values s as xs) (cs : List F) :
    Yields ν.le s (ArithM.polyMulConst as cs : EStateM ε σ (List V))
      (ν.Values · · (Poly.sumRows (fun x => cs.map (x * ofConst ·)) [] xs)) := by
  refine convolve (fun {s' a x} hle hx => ?_) ?_ ha
  · rw [Returns, List.forall₂_map_right_iff, List.forall₂_same]
    exact fun c _ s'' hle' => ν.mulConst (ν.mono hle' hx) c
  · rintro rfl x
    rfl

end Polynomials

end Valuation

end ArithM

end ForeignCurve
