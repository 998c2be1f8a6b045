import ForeignCurve.Native

/-!
Polynomials over the native field, as lists of coefficients, lowest degree first. Trailing zeros
are kept: two polynomials are equal when their lists are.
-/

namespace ForeignCurve

structure Poly where
  coeffs : List Native
deriving DecidableEq

namespace Poly

section Coefficients

variable {F : Type}

def addCoeffs [Add F] : List F → List F → List F
  | [], bs => bs
  | as, [] => as
  | a :: as, b :: bs => (a + b) :: addCoeffs as bs

def subCoeffs [Sub F] [Neg F] : List F → List F → List F
  | [], bs => bs.map (- ·)
  | as, [] => as
  | a :: as, b :: bs => (a - b) :: subCoeffs as bs

def mulCoeffs [Add F] [Mul F] [OfNat F 0] : List F → List F → List F
  | [], _ => []
  | _, [] => []
  | a :: as, bs => addCoeffs (bs.map (a * ·)) (0 :: mulCoeffs as bs)

end Coefficients

instance : Add Poly := ⟨fun p q => ⟨addCoeffs p.coeffs q.coeffs⟩⟩

instance : Sub Poly := ⟨fun p q => ⟨subCoeffs p.coeffs q.coeffs⟩⟩

instance : Neg Poly := ⟨fun p => ⟨p.coeffs.map (- ·)⟩⟩

instance : Mul Poly := ⟨fun p q => ⟨mulCoeffs p.coeffs q.coeffs⟩⟩

def eval (p : Poly) (x : Native) : Native :=
  p.coeffs.foldr (fun c acc => acc * x + c) 0

def suffixEvals (x : Native) : List Native → List Native
  | [] => []
  | c :: cs =>
    let rest := suffixEvals x cs
    (c + rest.headD 0 * x) :: rest

/--
The quotient of the division by `x - root`. The remainder, which is the value at `root`, is dropped.
-/
def rootQuotient (p : Poly) (root : Native) : Poly :=
  ⟨suffixEvals root p.coeffs.tail⟩

end Poly

end ForeignCurve
