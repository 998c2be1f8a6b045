import ForeignCurve.Trace

/-!
Plans: what an instruction writes, once it has read its operands. A plan is a sequence of writes that
ends well or in a failure. The writes before a failure are carried out.
-/

namespace ForeignCurve

inductive Plan where
  | done
  | fail (f : Failure)
  | write (s : CellSlice) (values : List Native) (rest : Plan)
  | writeArray (k : Kind) (a : RegisterArray k) (values : List Native) (rest : Plan)

namespace Plan

def ofExcept : Except Failure Plan → Plan
  | .ok p => p
  | .error f => fail f

def perform : Plan → TraceM Unit
  | done => return
  | fail f => throw f
  | write s values rest => do
    TraceM.writeSlice s values
    rest.perform
  | writeArray _ a values rest => do
    TraceM.writeArray a (values.map ([·]))
    rest.perform

end Plan

end ForeignCurve
