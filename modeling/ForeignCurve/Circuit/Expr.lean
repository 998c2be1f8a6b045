import ForeignCurve.Native
import ForeignCurve.Table

namespace ForeignCurve

inductive Expr where
  | const (value : Native)
  | cell (cell : Cell)
  | sum (a b : Expr)
  | difference (a b : Expr)
  | negation (a : Expr)
  | product (a b : Expr)
deriving DecidableEq

namespace Expr

def evaluate (t : Table Native) : Expr → Except Cell Native
  | const value => .ok value
  | cell c =>
    match t.get? c with
    | some value => .ok value
    | none => .error c
  | sum a b => do return (← a.evaluate t) + (← b.evaluate t)
  | difference a b => do return (← a.evaluate t) - (← b.evaluate t)
  | negation a => do return -(← a.evaluate t)
  | product a b => do return (← a.evaluate t) * (← b.evaluate t)

def joinRows : Option Nat → Option Nat → Option Nat
  | some a, some b => some (max a b)
  | some a, none => some a
  | none, b => b

def maxRow : Expr → Option Nat
  | const _ => none
  | cell c => some c.row
  | negation a => a.maxRow
  | sum a b | difference a b | product a b => joinRows a.maxRow b.maxRow

def appendText (acc : String) : Expr → String
  | const value => acc ++ toString value.val
  | cell c => acc ++ "c" ++ toString c.column ++ "." ++ toString c.row
  | sum a b => appendText (appendText (acc ++ "(") a ++ "+") b ++ ")"
  | difference a b => appendText (appendText (acc ++ "(") a ++ "-") b ++ ")"
  | product a b => appendText (appendText (acc ++ "(") a ++ "*") b ++ ")"
  | negation a => appendText (acc ++ "(-") a ++ ")"

def text (e : Expr) : String :=
  appendText "" e

end Expr

end ForeignCurve
