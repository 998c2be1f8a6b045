import ForeignCurve.Proofs.Instruction.Plan

namespace ForeignCurve

-- the instance for the rest of a plan is as large as the plan is long
set_option synthInstance.maxSize 1000000

/-- A fault of the schedule: a cell is missing, taken or outside, or there are too many or too few values. -/
def Fault.misplaced : Fault → Bool
  | alreadyAssigned _ | notAssigned _ | outsideArena .. | sliceLength .. | arrayLength ..
  | selectLengths => true
  | atInstruction _ f => f.misplaced
  | _ => false

class Fault.OfValues (f : Fault) : Prop where
  not_misplaced : f.misplaced = false

namespace Fault.OfValues

variable (m n : Nat)

instance : OfValues (.notABit n) := ⟨rfl⟩

instance : OfValues (.valueTooWide m n) := ⟨rfl⟩

instance : OfValues (.sumTooWide n) := ⟨rfl⟩

instance : OfValues (.negativeDifference m n) := ⟨rfl⟩

instance : OfValues (.inconsistentLimb n) := ⟨rfl⟩

instance : OfValues (.unreducedFactors n) := ⟨rfl⟩

instance : OfValues (.unreducedMinuend m n) := ⟨rfl⟩

instance : OfValues .divisionByZero := ⟨rfl⟩

end Fault.OfValues

class Failure.OfValues (f : Failure) : Prop where
  not_misplaced : ∀ cause, f = .fault cause → cause.misplaced = false

namespace Failure.OfValues

instance (f : Fault) [h : f.OfValues] : OfValues (.fault f) where
  not_misplaced _ hf := by
    cases hf
    exact h.not_misplaced

instance (a : Abort) : OfValues (.abort a) where
  not_misplaced _ hf := by contradiction

end Failure.OfValues

class inductive Plan.OfValues : Plan → Prop where
  | done : OfValues .done
  | fail (f : Failure) (h : f.OfValues) : OfValues (.fail f)
  | write (s : CellSlice) (xs : List Native) (rest : Plan) (h : OfValues rest) :
    OfValues (.write s xs rest)
  | writeArray (k : Kind) (a : RegisterArray k) (xs : List Native) (rest : Plan)
    (h : OfValues rest) : OfValues (.writeArray k a xs rest)

namespace Plan.OfValues

instance : OfValues .done := .done

instance (s : CellSlice) (xs : List Native) (rest : Plan) [h : rest.OfValues] :
    (Plan.write s xs rest).OfValues := .write s xs rest h

instance (k : Kind) (a : RegisterArray k) (xs : List Native) (rest : Plan) [h : rest.OfValues] :
    (Plan.writeArray k a xs rest).OfValues := .writeArray k a xs rest h

instance (p : { p : Plan // p.OfValues }) : p.val.OfValues := p.property

end Plan.OfValues

section Computations

variable {α β : Type}

class Numeric (x : Except Failure α) : Prop where
  ofValues : ∀ f, x = .error f → f.OfValues

namespace Numeric

instance pure (a : α) : Numeric (pure a) where
  ofValues _ hf := by contradiction

instance throw (f : Failure) [h : f.OfValues] : Numeric (throw f : Except Failure α) where
  ofValues _ hf := by
    cases hf
    exact h

instance bind (x : Except Failure α) (f : α → Except Failure β) [hx : Numeric x]
    [hf : ∀ a, Numeric (f a)] : Numeric (x >>= f) where
  ofValues e he := by
    cases x with
    | error e' =>
      cases he
      exact hx.ofValues _ rfl
    | ok a => exact (hf a).ofValues e he

instance ite (c : Prop) [Decidable c] (x y : Except Failure α) [Numeric x] [Numeric y] :
    Numeric (if c then x else y) := by
  split
  · infer_instance
  · infer_instance

instance liftAbort (x : Except Abort α) : Numeric (liftM x : Except Failure α) where
  ofValues f hf := by
    cases x with
    | ok a => contradiction
    | error a =>
      cases hf
      infer_instance

end Numeric

class Plans (x : Except Failure Plan) : Prop where
  ofValues : (Plan.ofExcept x).OfValues

attribute [instance] Plans.ofValues

namespace Plans

variable {x : Except Failure Plan}

theorem plan [h : Plans x] {p : Plan} (hp : x = .ok p) : p.OfValues := by
  have hx := h.ofValues
  rwa [hp] at hx

instance numeric [h : Plans x] : Numeric x where
  ofValues f hf := by
    have hx := h.ofValues
    rw [hf] at hx
    cases hx with
    | fail f h => exact h

instance pure (p : Plan) [h : p.OfValues] : Plans (pure p) where
  ofValues := h

instance throw (f : Failure) [h : f.OfValues] : Plans (throw f) where
  ofValues := .fail f h

instance bind (x : Except Failure α) (f : α → Except Failure Plan) [hx : Numeric x]
    [hf : ∀ a, Plans (f a)] : Plans (x >>= f) where
  ofValues := by
    cases x with
    | error e =>
      have he := hx.ofValues e rfl
      exact .fail e he
    | ok a => exact (hf a).ofValues

instance bind_plan (x : Except Failure Plan) (f : Plan → Except Failure Plan) [hx : Plans x]
    [hf : ∀ p : { p : Plan // p.OfValues }, Plans (f p.val)] : Plans (x >>= f) where
  ofValues := by
    cases x with
    | error e => exact hx.ofValues
    | ok p => exact (hf ⟨p, hx.ofValues⟩).ofValues

instance ite (c : Prop) [Decidable c] (x y : Except Failure Plan) [Plans x] [Plans y] :
    Plans (if c then x else y) := by
  split
  · infer_instance
  · infer_instance

end Plans

end Computations

namespace LimbSum

instance (limbBits i carry a b r : Nat) : Numeric (carryOut limbBits i carry a b r) := by
  unfold carryOut
  infer_instance

instance (limbs limbBits i carry : Nat) (a b r : List Nat) :
    Numeric (carryBits limbs limbBits i carry a b r) := by
  fun_induction carryBits limbs limbBits i carry a b r with
  | case1 => infer_instance
  | case2 i carry x a y b z r ih =>
    dsimp only
    infer_instance
  | case3 => infer_instance

instance (s : LimbSum) (a b r : List Nat) : Plans (s.carriesPlan a b r) := by
  unfold carriesPlan
  infer_instance

instance (derived : CellSlice) (limbs : List Nat) (rest : Except Failure Plan) [Plans rest] :
    Plans (derivedPlan derived limbs rest) := by
  unfold derivedPlan
  infer_instance

end LimbSum

namespace Identity

variable {P : FieldParams}

theorem not_misplaced_of_quotient {vanishing : Poly} {f : Fault}
    (h : quotient P vanishing = .error f) : f.misplaced = false := by
  unfold quotient at h
  split at h
  · obtain ⟨c, -, hc⟩ := exists_of_mapM_eq_error h
    dsimp only at hc
    split at hc
    · contradiction
    · cases hc
      rfl
  · cases h
    rfl

instance (vanishing : Poly) : Numeric (liftM (quotient P vanishing) : Except Failure (List Native)) where
  ofValues f hf := by
    cases hquotient : quotient P vanishing with
    | ok w =>
      rw [hquotient] at hf
      contradiction
    | error e =>
      rw [hquotient] at hf
      cases hf
      exact ⟨fun _ h => by cases h; exact not_misplaced_of_quotient hquotient⟩

variable (m : Identity P) (a b : List Native)

instance (lhs : Poly) (result : List Native) (carry : Nat) :
    Plans (m.witnessPlan lhs result carry) := by
  unfold witnessPlan
  infer_instance

instance : Plans (m.sumPlan a b) := by
  unfold sumPlan
  infer_instance

instance : Plans (m.differencePlan a b) := by
  unfold differencePlan
  dsimp only
  infer_instance

instance : Plans (m.productPlan a b) := by
  unfold productPlan
  dsimp only
  infer_instance

end Identity

end ForeignCurve
