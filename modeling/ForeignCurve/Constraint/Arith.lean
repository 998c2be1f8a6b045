import ForeignCurve.Circuit.Expr

/-!
What the constraints of an instruction are written in: constants and ring operations, over values of
any type. Over `Native` they compute, over `Expr` they build the expression. Coefficient lists have
the operations of polynomials, with sums and differences padded to the longer operand.
-/

namespace ForeignCurve

class Arith (V : Type) where
  const : Native → V
  add : V → V → V
  sub : V → V → V
  neg : V → V
  mul : V → V → V

instance : Arith Native where
  const c := c
  add a b := a + b
  sub a b := a - b
  neg a := -a
  mul a b := a * b

instance : Arith Expr where
  const := .const
  add := .sum
  sub := .difference
  neg := .negation
  mul := .product

namespace Arith

variable {V : Type} [Arith V]

def zero : V := const 0

def one : V := const 1

def addConst (a : V) (c : Native) : V := add a (const c)

def subConst (a : V) (c : Native) : V := sub a (const c)

def mulConst (a : V) (c : Native) : V := mul a (const c)

def constPoly (cs : List Native) : List V :=
  cs.map const

def polyAdd : List V → List V → List V
  | [], bs => bs
  | as, [] => as
  | a :: as, b :: bs => add a b :: polyAdd as bs

def polySub : List V → List V → List V
  | [], bs => bs.map neg
  | as, [] => as
  | a :: as, b :: bs => sub a b :: polySub as bs

def polyShift (as : List V) (b : V) : List V :=
  as.map (sub · b)

def polyScale (as : List V) (b : V) : List V :=
  as.map (mul · b)

/--
Adds the product of `as` with the polynomial behind `row` to `acc`, where `row a` is the list of the
products of `a` with its coefficients. Every coefficient is summed in the order of `as`.
-/
def mulAcc (row : V → List V) : List V → List V → List V
  | acc, [] => acc
  | acc, a :: as =>
    match polyAdd acc (row a) with
    | [] => mulAcc row [] as
    | c :: cs => c :: mulAcc row cs as

def polyMul (as bs : List V) : List V :=
  mulAcc (fun a => bs.map (mul a ·)) [] as

def polyMulConst (as : List V) (cs : List Native) : List V :=
  mulAcc (fun a => cs.map (mulConst a ·)) [] as

end Arith

end ForeignCurve
