import ForeignCurve.Proofs.Entry
import ForeignCurve.Proofs.Instruction.Faults
import ForeignCurve.Proofs.Run

/-!
Traces of two widths. A trace is read and written by logical index, so every program on traces does the
same on two traces that hold the same values: it succeeds on both, or it fails on both for the same
reason, and what it leaves behind holds the same values again.
-/

namespace ForeignCurve

variable {α β ε : Type} {l l' : Layout}

inductive Fault.Alike (l l' : Layout) : Fault → Fault → Prop where
  | alreadyAssigned (i : Nat) : Alike l l' (.alreadyAssigned (l.cell i)) (.alreadyAssigned (l'.cell i))
  | notAssigned (i : Nat) : Alike l l' (.notAssigned (l.cell i)) (.notAssigned (l'.cell i))
  | outsideArena (s : CellSlice) (n : Nat) : Alike l l' (.outsideArena s n) (.outsideArena s n)
  | sliceLength (s : CellSlice) (n : Nat) : Alike l l' (.sliceLength s n) (.sliceLength s n)
  | arrayLength (m n : Nat) : Alike l l' (.arrayLength m n) (.arrayLength m n)
  | selectLengths : Alike l l' .selectLengths .selectLengths
  | ofValues (f : Fault) (h : f.misplaced = false) : Alike l l' f f
  | atInstruction (index : Nat) {f f' : Fault} (h : Alike l l' f f') :
    Alike l l' (.atInstruction index f) (.atInstruction index f')

inductive Failure.Alike (l l' : Layout) : Failure → Failure → Prop where
  | fault {f f' : Fault} (h : f.Alike l l' f') : Alike l l' (.fault f) (.fault f')
  | abort (a : Abort) : Alike l l' (.abort a) (.abort a)

inductive Matches (R : ε → ε → Prop) (Q : α → Prop) : Except ε α → Except ε α → Prop where
  | ok {a : α} (h : Q a) : Matches R Q (.ok a) (.ok a)
  | error {e e' : ε} (h : R e e') : Matches R Q (.error e) (.error e')

namespace Matches

variable {R : ε → ε → Prop} {Q : α → Prop} {S : β → Prop}

theorem bind {x x' : Except ε α} {f f' : α → Except ε β} (h : Matches R Q x x')
    (hf : ∀ a, Q a → Matches R S (f a) (f' a)) : Matches R S (x >>= f) (x' >>= f') := by
  cases h with
  | ok ha => exact hf _ ha
  | error he => exact .error he

theorem mapM {f f' : α → Except ε β} {as : List α}
    (h : ∀ a ∈ as, Matches R (fun _ => True) (f a) (f' a)) :
    Matches R (fun _ => True) (as.mapM f) (as.mapM f') := by
  induction as with
  | nil => exact .ok trivial
  | cons a as ih =>
    rw [List.forall_mem_cons] at h
    rw [List.mapM_cons, List.mapM_cons]
    refine h.1.bind fun b _ => ?_
    exact (ih h.2).bind fun bs _ => .ok trivial

theorem lift {x x' : Except Fault α} (h : Matches (Fault.Alike l l') Q x x') :
    Matches (Failure.Alike l l') Q (liftM x) (liftM x') := by
  cases h with
  | ok ha => exact .ok ha
  | error he => exact .error (.fault he)

end Matches

theorem Failure.OfValues.alike {f : Failure} (h : f.OfValues) : f.Alike l l' f := by
  cases f with
  | fault cause => exact .fault (.ofValues cause (h.not_misplaced cause rfl))
  | abort a => exact .abort a

theorem Plans.matches (x : Except Failure Plan) [Plans x] :
    Matches (Failure.Alike l l') Plan.OfValues x x := by
  cases hx : x with
  | ok p => exact .ok (Plans.plan hx)
  | error f => exact .error (Numeric.ofValues f hx).alike

theorem Table.size_ensureRows_le {t : Table Native} {rows k : Nat} (hrows : rows ≤ k)
    (h : t.cells.size ≤ k * t.layout.width) : (t.ensureRows rows).cells.size ≤ k * t.layout.width := by
  have hmul := Nat.mul_le_mul_right t.layout.width hrows
  unfold ensureRows
  split
  · simp only [Array.size_append, Array.size_replicate]
    omega
  · exact h

theorem Table.size_write (t : Table Native) (column row : Nat) (x : Native) :
    match write column row x t with
    | .ok _ t' | .error _ t' =>
      t'.cells.size = (t.ensureRows ((t.layout.wrap column row).row + 1)).cells.size := by
  unfold write
  dsimp only
  split
  · next hwrite =>
    split at hwrite
    · contradiction
    · cases hwrite
      exact Array.size_setIfInBounds
  · next hwrite =>
    split at hwrite
    · cases hwrite
      rfl
    · contradiction

namespace Trace

/--
Two traces of one arena, at the given layouts, that hold the same values. None has a row past those
that the arena needs.
-/
structure Alike (l l' : Layout) (n : Nat) (t t' : Trace) : Prop where
  layout : t.layout = l
  layout' : t'.layout = l'
  numCells : t.numCells = n
  numCells' : t'.numCells = n
  store : t'.store = t.store
  size_le : t.table.cells.size ≤ l.rowsAmount n * l.width
  size_le' : t'.table.cells.size ≤ l'.rowsAmount n * l'.width

theorem readCell_eq (t : Trace) (i : Nat) :
    t.readCell i = match t.store i with
      | some x => .ok x
      | none => .error (.notAssigned (t.layout.cell i)) := by
  have hwrap : t.table.layout.wrap (t.layout.cell i).column (t.layout.cell i).row = t.layout.cell i := by
    exact Layout.wrap_of_lt _ (Layout.column_cell_lt t.layout i)
  unfold readCell Table.read store Table.store
  dsimp only
  rw [hwrap]
  cases t.table.get? (t.layout.cell i) with
  | none => rfl
  | some x => rfl

namespace Alike

variable {n : Nat} {t t' : Trace} (h : t.Alike l l' n t')

theorem empty (l l' : Layout) (n : Nat) : (Trace.empty l n).Alike l l' n (.empty l' n) := by
  refine ⟨rfl, rfl, rfl, rfl, ?_, Nat.zero_le _, Nat.zero_le _⟩
  funext i
  exact (Table.get?_empty _ _).trans (Table.get?_empty _ _).symm

include h

theorem checkBounds (s : CellSlice) :
    Matches (Fault.Alike l l') (fun _ => True) (t.checkBounds s) (t'.checkBounds s) := by
  unfold Trace.checkBounds
  rw [h.numCells, h.numCells']
  split
  · exact .ok trivial
  · exact .error (.outsideArena s _)

theorem readCell (i : Nat) :
    Matches (Fault.Alike l l') (fun _ => True) (t.readCell i) (t'.readCell i) := by
  rw [readCell_eq, readCell_eq, h.store, h.layout, h.layout']
  cases t.store i with
  | none => exact .error (.notAssigned i)
  | some x => exact .ok trivial

theorem readSlice (s : CellSlice) :
    Matches (Fault.Alike l l') (fun _ => True) (t.readSlice s) (t'.readSlice s) := by
  unfold Trace.readSlice
  refine (h.checkBounds s).bind fun _ _ => ?_
  exact .mapM fun i _ => h.readCell i

theorem readFirst {k : Kind} (r : Register k) :
    Matches (Fault.Alike l l') (fun _ => True) (t.readFirst r) (t'.readFirst r) := by
  unfold Trace.readFirst
  exact (h.checkBounds r.slice).bind fun _ _ => h.readCell r.start

theorem readField {P : FieldParams} (r : FieldRegister P) :
    Matches (Fault.Alike l l') (fun _ => True) (t.readField r) (t'.readField r) := by
  unfold Trace.readField
  exact (h.readSlice r.slice).bind fun _ _ => .ok trivial

theorem readPoint {P : FieldParams} (r : PointRegister P) :
    Matches (Fault.Alike l l') (fun _ => True) (t.readPoint r) (t'.readPoint r) := by
  unfold Trace.readPoint
  refine (h.readField r.x).bind fun _ _ => ?_
  exact (h.readField r.y).bind fun _ _ => .ok trivial

theorem readOperand (o : LimbOperand) :
    Matches (Fault.Alike l l') (fun _ => True) (o.read t) (o.read t') := by
  cases o with
  | cells s => exact (h.readSlice s).bind fun _ _ => .ok trivial
  | const limbs => exact .ok trivial

theorem selectPlan (bit : Register .bit) (ifTrue ifFalse result : CellSlice) :
    Matches (Failure.Alike l l') Plan.OfValues
      (Instruction.selectPlan bit ifTrue ifFalse result t)
      (Instruction.selectPlan bit ifTrue ifFalse result t') := by
  unfold Instruction.selectPlan
  dsimp only
  split
  · refine (h.readFirst bit).lift.bind fun b _ => ?_
    split
    · exact (h.readSlice ifTrue).lift.bind fun _ _ => Plans.matches _
    · split
      · exact (h.readSlice ifFalse).lift.bind fun _ _ => Plans.matches _
      · exact Plans.matches _
  · exact .error (.fault .selectLengths)

theorem sumPlan (sum : LimbSum) :
    Matches (Failure.Alike l l') Plan.OfValues (sum.plan t) (sum.plan t') := by
  refine (h.readSlice sum.a).lift.bind fun a _ => ?_
  dsimp only
  split
  · exact (h.readOperand _).lift.bind fun b _ => Plans.matches _
  · exact Plans.matches _
  · exact Plans.matches _

theorem plan (i : Instruction) :
    Matches (Failure.Alike l l') Plan.OfValues (i.plan t) (i.plan t') := by
  cases i with
  | constant target values assign =>
    cases assign with
    | true => exact Plans.matches (pure (.write target values .done))
    | false => exact Plans.matches (pure .done)
  | copy source target => exact (h.readSlice source).lift.bind fun _ _ => Plans.matches _
  | boolean cells => exact .ok .done
  | range bits cells => exact .ok .done
  | select bit ifTrue ifFalse result => exact h.selectPlan bit ifTrue ifFalse result
  | decompose value bits => exact (h.readFirst value).lift.bind fun _ _ => Plans.matches _
  | limbSum sum => exact h.sumPlan sum
  | greaterThan value bound limbBits result =>
    exact (h.readSlice value).lift.bind fun _ _ => Plans.matches _
  | fieldSum P m | fieldDifference P m | fieldProduct P m =>
    refine (h.readSlice _).lift.bind fun _ _ => ?_
    exact (h.readSlice _).lift.bind fun _ _ => Plans.matches _
  | inverse P a result allowZero =>
    exact (h.readField a).lift.bind fun _ _ => Plans.matches _
  | slope E p q result =>
    refine (h.readPoint p).lift.bind fun _ _ => ?_
    exact (h.readPoint q).lift.bind fun _ _ => Plans.matches _

end Alike

end Trace

inductive Outcome (l l' : Layout) (n : Nat) :
    EStateM.Result Failure Trace α → EStateM.Result Failure Trace α → Prop where
  | ok (a : α) {t t' : Trace} (h : t.Alike l l' n t') : Outcome l l' n (.ok a t) (.ok a t')
  | error {f f' : Failure} {t t' : Trace} (hf : f.Alike l l' f') (h : t.Alike l l' n t') :
    Outcome l l' n (.error f t) (.error f' t')

theorem Outcome.bind {n : Nat} {x : TraceM α} {f : α → TraceM β} {t t' : Trace}
    (hx : Outcome l l' n (x t) (x t'))
    (hf : ∀ a u u', u.Alike l l' n u' → Outcome l l' n (f a u) (f a u')) :
    Outcome l l' n ((x >>= f) t) ((x >>= f) t') := by
  change Outcome l l' n (EStateM.bind x f t) (EStateM.bind x f t')
  unfold EStateM.bind
  generalize x t = r at hx ⊢
  generalize x t' = r' at hx ⊢
  cases hx with
  | ok a h => exact hf a _ _ h
  | error hf h => exact .error hf h

namespace TraceM

variable {n : Nat}

theorem size_writeCell (i : Nat) (x : Native) (t : Trace) {k : Nat}
    (hrows : (t.layout.cell i).row < k) (h : t.table.cells.size ≤ k * t.layout.width) :
    match writeCell i x t with
    | .ok _ t' | .error _ t' => t'.table.cells.size ≤ k * t.layout.width := by
  obtain ⟨n, table⟩ := t
  have hsize := table.size_write (table.layout.cell i).column (table.layout.cell i).row x
  rw [Layout.wrap_of_lt _ (Layout.column_cell_lt table.layout i)] at hsize
  have hensure := Table.size_ensureRows_le hrows h
  simp only [writeCell]
  generalize Table.write (table.layout.cell i).column (table.layout.cell i).row x table = r at hsize ⊢
  cases r with
  | ok u table' => exact Nat.le_trans (Nat.le_of_eq hsize) hensure
  | error f table' => exact Nat.le_trans (Nat.le_of_eq hsize) hensure

theorem alike_writeCell {t t' : Trace} (h : t.Alike l l' n t') {i : Nat} (hi : i < n) (x : Native) :
    Outcome l l' n (writeCell i x t) (writeCell i x t') := by
  have hstore := h.store
  cases hx : t.store i with
  | none =>
    have hsize := size_writeCell i x t (k := t.layout.rowsAmount n)
      (Layout.row_cell_lt t.layout hi) (by rw [h.layout]; exact h.size_le)
    have hsize' := size_writeCell i x t' (k := t'.layout.rowsAmount n)
      (Layout.row_cell_lt t'.layout hi) (by rw [h.layout']; exact h.size_le')
    rw [h.layout] at hsize
    rw [h.layout'] at hsize'
    obtain ⟨u, hu, hfilled⟩ := writeCell_eq_ok hx x
    rw [← hstore] at hx
    obtain ⟨u', hu', hfilled'⟩ := writeCell_eq_ok hx x
    rw [hu] at hsize ⊢
    rw [hu'] at hsize' ⊢
    refine .ok () ⟨hfilled.layout.trans h.layout, hfilled'.layout.trans h.layout',
      hfilled.numCells.trans h.numCells, hfilled'.numCells.trans h.numCells', ?_, hsize, hsize'⟩
    rw [hfilled.store, hfilled'.store, hstore]
  | some y =>
    have hx' : t'.store i = some y := by rw [hstore, hx]
    rw [writeCell_assigned hx, writeCell_assigned hx', h.layout, h.layout']
    exact .error (.fault (.alreadyAssigned i)) h

theorem alike_writeFrom {t t' : Trace} (h : t.Alike l l' n t') {i : Nat} {xs : List Native}
    (hi : i + xs.length ≤ n) : Outcome l l' n (writeFrom i xs t) (writeFrom i xs t') := by
  induction xs generalizing i t t' with
  | nil => exact .ok () h
  | cons x xs ih =>
    rw [List.length_cons] at hi
    exact (alike_writeCell h (by omega) x).bind fun _ _ _ h' => ih h' (by omega)

theorem alike_checkBounds {t t' : Trace} (h : t.Alike l l' n t') (s : CellSlice) :
    Outcome l l' n (reading (·.checkBounds s) t) (reading (·.checkBounds s) t') := by
  have hbounds := h.checkBounds s
  unfold reading
  dsimp only
  generalize t.checkBounds s = x at hbounds ⊢
  generalize t'.checkBounds s = x' at hbounds ⊢
  cases hbounds with
  | ok _ => exact .ok _ h
  | error he => exact .error (.fault he) h

theorem writeSlice_outside {t : Trace} {s : CellSlice} (xs : List Native) (h : ¬ s.stop ≤ t.numCells) :
    writeSlice s xs t = .error (.fault (.outsideArena s t.numCells)) t := by
  have hbounds : t.checkBounds s = .error (.outsideArena s t.numCells) := if_neg h
  have hread : reading (·.checkBounds s) t = .error (.fault (.outsideArena s t.numCells)) t := by
    unfold reading
    dsimp only
    rw [hbounds]
  unfold writeSlice
  change EStateM.bind _ _ t = _
  unfold EStateM.bind
  rw [hread]

def Uniform (l l' : Layout) (n : Nat) (x : TraceM α) : Prop :=
  ∀ t t' : Trace, t.Alike l l' n t' → Outcome l l' n (x t) (x t')

namespace Uniform

theorem pure (a : α) : Uniform l l' n (pure a) :=
  fun _ _ h => .ok a h

theorem throw {f : Failure} (hf : f.Alike l l' f) : Uniform l l' n (throw f : TraceM α) :=
  fun _ _ h => .error hf h

theorem bind {x : TraceM α} {f : α → TraceM β} (hx : Uniform l l' n x)
    (hf : ∀ a, Uniform l l' n (f a)) : Uniform l l' n (x >>= f) :=
  fun t t' h => (hx t t' h).bind fun a u u' hu => hf a u u' hu

theorem lift (x : Except Abort α) : Uniform l l' n (liftM x : TraceM α) := by
  cases x with
  | ok a => exact pure a
  | error a => exact throw (.abort a)

theorem writeSlice (s : CellSlice) (xs : List Native) : Uniform l l' n (writeSlice s xs) := by
  intro t t' h
  by_cases hs : s.stop ≤ n
  · unfold TraceM.writeSlice
    refine Outcome.bind (alike_checkBounds h s) fun _ u u' hu => ?_
    dsimp only
    split
    · next hlen =>
      unfold CellSlice.stop at hs
      exact alike_writeFrom hu (by omega)
    · exact .error (.fault (.sliceLength s xs.length)) hu
  · rw [writeSlice_outside xs (by rwa [h.numCells]), writeSlice_outside xs (by rwa [h.numCells']),
      h.numCells, h.numCells']
    exact .error (.fault (.outsideArena s n)) h

theorem writeEach {k : Kind} (rs : List (Register k)) (values : List (List Native)) :
    Uniform l l' n (writeEach rs values) := by
  fun_induction TraceM.writeEach rs values with
  | case1 => exact pure ()
  | case2 r rs xs rest ih => exact (writeSlice r.slice xs).bind fun _ => ih
  | case3 => exact throw (.abort .unequalLengths)

theorem writeArray {k : Kind} (a : RegisterArray k) (values : List (List Native)) :
    Uniform l l' n (writeArray a values) := by
  unfold TraceM.writeArray
  dsimp only
  split
  · exact writeEach a.toList values
  · exact (throw (.fault (.arrayLength a.length values.length))).bind fun _ =>
      writeEach a.toList values

theorem writePoint {P : FieldParams} (r : PointRegister P) (p : Point) :
    Uniform l l' n (writePoint r p) := by
  unfold TraceM.writePoint
  refine (lift (P.encode p.x)).bind fun x => ?_
  refine (lift (P.encode p.y)).bind fun y => ?_
  exact (writeSlice r.x.slice x).bind fun _ => writeSlice r.y.slice y

theorem perform {p : Plan} (h : p.OfValues) : Uniform l l' n p.perform := by
  induction h with
  | done => exact pure ()
  | fail f hf => exact throw hf.alike
  | write s xs rest _ ih => exact (writeSlice s xs).bind fun _ => ih
  | writeArray k a xs rest _ ih => exact (writeArray a (xs.map ([·]))).bind fun _ => ih

theorem write (i : Instruction) : Uniform l l' n i.write := by
  intro t t' h
  have hplan := h.plan i
  unfold Instruction.write
  generalize i.plan t = x at hplan
  generalize i.plan t' = x' at hplan
  cases hplan with
  | ok hp => exact perform hp t t' h
  | error he => exact .error he h

theorem atInstruction (index : Nat) {x : TraceM Unit} (hx : Uniform l l' n x) :
    Uniform l l' n (Chip.atInstruction index x) := by
  intro t t' h
  have hout := hx t t' h
  unfold Chip.atInstruction
  generalize x t = r at hout ⊢
  generalize x t' = r' at hout ⊢
  cases hout with
  | ok a h => exact .ok a h
  | error hf h =>
    cases hf with
    | fault hf => exact .error (.fault (.atInstruction index hf)) h
    | abort a => exact .error (.abort a) h

theorem runFrom (index : Nat) (is : List Instruction) : Uniform l l' n (Chip.runFrom index is) := by
  induction is generalizing index with
  | nil => exact pure ()
  | cons i is ih => exact (atInstruction index (write i)).bind fun _ => ih (index + 1)

theorem writeWitness (c : Chip) : Uniform l l' n c.writeWitness :=
  runFrom 0 c.instructions.toList

theorem entry (e : Entry) : Uniform l l' n e.write := by
  cases e with
  | slice s values => exact writeSlice s values
  | array k a values => exact writeArray a values
  | point P r p => exact writePoint r p

end Uniform

theorem alike_attemptAll {xs : List (TraceM Unit)} (hxs : ∀ x ∈ xs, Uniform l l' n x) {t t' : Trace}
    (h : t.Alike l l' n t') :
    List.Forall₂ (Option.Rel (Failure.Alike l l')) (attemptAll xs t).1 (attemptAll xs t').1 ∧
      (attemptAll xs t).2.Alike l l' n (attemptAll xs t').2 := by
  induction xs generalizing t t' with
  | nil => exact ⟨.nil, h⟩
  | cons x xs ih =>
    rw [List.forall_mem_cons] at hxs
    have hout := hxs.1 t t' h
    unfold attemptAll
    generalize x t = r at hout ⊢
    generalize x t' = r' at hout ⊢
    cases hout with
    | ok a h =>
      obtain ⟨houtcomes, hlast⟩ := ih hxs.2 h
      exact ⟨.cons .none houtcomes, hlast⟩
    | error hf h =>
      obtain ⟨houtcomes, hlast⟩ := ih hxs.2 h
      exact ⟨.cons (.some hf) houtcomes, hlast⟩

end TraceM

namespace Chip

open TraceM

theorem alike_entries (l : Layout) (n : Nat) (entries : List Entry) :
    let start := (attemptAll (entries.map Entry.write) (.empty l n)).2
    start.Alike l l n start := by
  have hentries : ∀ x ∈ entries.map Entry.write, Uniform l l n x := by
    rw [List.forall_mem_map]
    exact fun e _ => .entry e
  exact (alike_attemptAll hentries (.empty l l n)).2

theorem alike_writeWitness {c : Chip} {l : Layout} {n : Nat} {start t : Trace}
    (hstart : start.Alike l l n start) (h : c.writeWitness start = .ok () t) : t.Alike l l n t := by
  have hout := Uniform.writeWitness c _ _ hstart
  rw [h] at hout
  cases hout with
  | ok _ h => exact h

end Chip

theorem Trace.Alike.numRows_eq {l : Layout} {n : Nat} {t : Trace} (h : t.Alike l l n t)
    (hlast : ∀ j, j + 1 = n → (t.store j).isSome) : t.table.numRows = l.rowsAmount n := by
  have hlayout : t.table.layout = l := h.layout
  have hrows := t.table.numRows_mul_width
  rw [hlayout] at hrows
  apply Nat.le_antisymm
  · refine Nat.le_of_mul_le_mul_right ?_ l.width_pos
    rw [hrows]
    exact h.size_le
  · rw [l.rowsAmount_le_iff, hrows]
    by_contra hlt
    -- the last cell would be behind the table
    have hsome := hlast (n - 1) (by omega)
    have hnone : t.store (n - 1) = none := by
      refine (Table.store_eq t.table _).trans ?_
      rw [Array.getElem?_eq_none (by omega)]
      rfl
    rw [hnone] at hsome
    contradiction

end ForeignCurve
