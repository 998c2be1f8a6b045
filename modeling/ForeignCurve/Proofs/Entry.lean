import ForeignCurve.Chip

namespace ForeignCurve

inductive Entry where
  | slice (s : CellSlice) (values : List Native)
  | array (k : Kind) (a : RegisterArray k) (values : List (List Native))
  | point (P : FieldParams) (r : PointRegister P) (p : Point)

namespace Entry

def write : Entry → TraceM Unit
  | slice s values => TraceM.writeSlice s values
  | array _ a values => TraceM.writeArray a values
  | point _ r p => TraceM.writePoint r p

end Entry

namespace TraceM

def attemptAll : List (TraceM Unit) → Trace → List (Option Failure) × Trace
  | [], t => ([], t)
  | x :: xs, t =>
    match x t with
    | .ok _ t =>
      let (outcomes, t) := attemptAll xs t
      (none :: outcomes, t)
    | .error f t =>
      let (outcomes, t) := attemptAll xs t
      (some f :: outcomes, t)

end TraceM

end ForeignCurve
