namespace ForeignCurve

/-- Calls that return variables for constants from `F` and for ring operations. -/
class ArithM (F V : outParam Type) (m : Type → Type) where
  const : F → m V
  add : V → V → m V
  sub : V → V → m V
  neg : V → m V
  mul : V → V → m V

namespace ArithM

variable {F V : Type} {m : Type → Type} [Monad m] [ArithM F V m]

def addConst (a : V) (c : F) : m V := do
  add a (← const c)

def subConst (a : V) (c : F) : m V := do
  sub a (← const c)

def mulConst (a : V) (c : F) : m V := do
  mul a (← const c)

def constPoly (cs : List F) : m (List V) :=
  cs.mapM const

def polyAdd : List V → List V → m (List V)
  | [], bs => return bs
  | as, [] => return as
  | a :: as, b :: bs => do
    let c ← add a b
    return c :: (← polyAdd as bs)

def polySub : List V → List V → m (List V)
  | [], bs => bs.mapM neg
  | as, [] => return as
  | a :: as, b :: bs => do
    let c ← sub a b
    return c :: (← polySub as bs)

def polyShift (as : List V) (b : V) : m (List V) :=
  as.mapM (sub · b)

def polyScale (as : List V) (b : V) : m (List V) :=
  as.mapM (mul · b)

section Product

variable {β : Type}

def accumulate : Option V → V → m V
  | none, v => return v
  | some acc, v => add acc v

def addRow (product : β → m V) : Nat → List β → Array (Option V) → m (Array (Option V))
  | _, [], slots => return slots
  | k, b :: bs, slots => do
    let ab ← product b
    let sum ← accumulate slots[k]?.join ab
    addRow product (k + 1) bs (slots.setIfInBounds k (some sum))

def addRows (product : V → β → m V) (bs : List β) :
    Nat → List V → Array (Option V) → m (Array (Option V))
  | _, [], slots => return slots
  | i, a :: as, slots => do
    let slots ← addRow (product a) i bs slots
    addRows product bs (i + 1) as slots

/-- The coefficients of a product, collected in slots. A product with an empty list is empty. -/
def convolve (product : V → β → m V) (as : List V) (bs : List β) : m (List V) := do
  if as.isEmpty || bs.isEmpty then
    return []
  let slots ← addRows product bs 0 as (.replicate (as.length + bs.length - 1) none)
  return slots.toList.filterMap id

end Product

def polyMul (as bs : List V) : m (List V) :=
  convolve mul as bs

def polyMulConst (as : List V) (cs : List F) : m (List V) :=
  convolve mulConst as cs

end ArithM

end ForeignCurve
