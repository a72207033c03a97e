/-
  ExpertRouting.Proofs.Capture.Doubles — weights of double precision in a tensor.

  A batch of rows keeps double precision up to the rounding to six places, while the weights
  of a tensor are read in single precision first. A weight survives that if single precision
  has it in range and in the same six places (`Binary.Survives`). The detour is looked at
  row by row: a fault depends on which weights are finite and on nothing else about them
  (`Batch.fault_congr`), and the bytes of a sound batch tell its rounded weights
  (`recordings_alike_iff`). So doubles in a tensor are recorded like their rows when all of
  them survive, and of rows that are recorded only then
  (`double_tensors_are_recorded_alike_iff`). A weight of seven places need not survive
  (`a_weight_of_seven_places_is_written_differently`).
-/

import ExpertRouting.Proofs.Capture.Recording
import ExpertRouting.Proofs.Capture.Tensors
import ExpertRouting.Proofs.Trace.Distinct
import ExpertRouting.Proofs.Trace.Weight

namespace ExpertRouting

namespace Binary

theorem convert_self {f : Format} (hf : 0 < f.precision) (x : Binary f) : convert f x = x := by
  by_cases hx : x.isFinite = true
  · obtain ⟨hfinite, hsign, hsteps⟩ := convert_steps ⟨le_rfl, le_rfl, (Nat.mul_comm _ _).le, hf⟩ hx
    refine eq_of_steps hf hfinite hx hsign ?_
    rw [hsteps, Nat.sub_self, pow_zero, mul_one]
  · cases x with
    | finite s m p hc => exact absurd rfl hx
    | _ => rfl

/-- A weight after a detour through single precision. -/
def throughSingle (w : Real64) : Real64 := convert binary64 (convert binary32 w)

/-- Single precision has the weight in range, and in the same six places. -/
def Survives (w : Real64) : Prop :=
  (convert binary32 w).isFinite = true ∧ roundWeight (throughSingle w) = roundWeight w

instance (w : Real64) : Decidable w.Survives := inferInstanceAs (Decidable (_ ∧ _))

theorem convert_not_finite {f : Format} (g : Format) {x : Binary f} (h : x.isFinite = false) :
    (convert g x).isFinite = false := by
  cases x with
  | finite s m p hc => cases h
  | _ => rfl

theorem throughSingle_isFinite (w : Real64) : (throughSingle w).isFinite = (convert binary32 w).isFinite := by
  cases h : (convert binary32 w).isFinite with
  | true => exact (roundWeight_convert_isFinite h).1
  | false => exact convert_not_finite binary64 h

end Binary

namespace Batch

variable {α : Type} {g g' : α → Real64}

theorem ofWeights_double (experts : List (List UInt32)) (rows : List (List Real64)) :
    ofWeights experts rows = ⟨experts, rows⟩ := by
  have hself : Binary.convert binary64 = (id : Real64 → Real64) := funext (Binary.convert_self (by decide))
  simp [ofWeights, hself]

theorem ofWeights_single (experts : List (List UInt32)) (rows : List (List Real64)) :
    ofWeights experts (rows.map (·.map (Binary.convert binary32))) =
      ⟨experts, rows.map (·.map Binary.throughSingle)⟩ := by
  simp only [ofWeights, List.map_map, Function.comp_def]
  rfl

/-! ## Faults -/

theorem rowFault_congr (shape : Option Shape) (width row : Nat) (experts : List UInt32) {ws : List α}
    (h : ∀ w ∈ ws, (g w).isFinite = (g' w).isFinite) :
    rowFault? shape width row experts (ws.map g) = rowFault? shape width row experts (ws.map g') := by
  have hfind : ((ws.map g).findIdx? fun w => !w.isFinite) = (ws.map g').findIdx? fun w => !w.isFinite := by
    induction ws with
    | nil => rfl
    | cons w ws ih =>
      obtain ⟨hw, hws⟩ := List.forall_mem_cons.mp h
      simp only [List.map_cons, List.findIdx?_cons, hw, ih hws]
  simp only [rowFault?, List.length_map, hfind]

theorem rowsFault_congr (shape : Option Shape) {rows : List (List UInt32 × List α)}
    (h : ∀ row ∈ rows, ∀ w ∈ row.2, (g w).isFinite = (g' w).isFinite) (width : Option Nat) (row : Nat) :
    rowsFault? shape width row (rows.map fun r => (r.1, r.2.map g)) =
      rowsFault? shape width row (rows.map fun r => (r.1, r.2.map g')) := by
  induction rows generalizing width row with
  | nil => rfl
  | cons r rows ih =>
    obtain ⟨hr, hrows⟩ := List.forall_mem_cons.mp h
    simp only [List.map_cons, rowsFault?, rowFault_congr shape _ row r.1 hr, ih hrows]

/-- Of its weights a fault depends only on which are finite. -/
theorem fault_congr (shape : Option Shape) (experts : List (List UInt32)) {rows : List (List α)}
    (h : ∀ row ∈ rows, ∀ w ∈ row, (g w).isFinite = (g' w).isFinite) :
    fault? shape ⟨experts, rows.map (·.map g)⟩ = fault? shape ⟨experts, rows.map (·.map g')⟩ := by
  have hrows : ∀ r ∈ experts.zip rows, ∀ w ∈ r.2, (g w).isFinite = (g' w).isFinite :=
    fun r hr => h r.2 (List.of_mem_zip hr).2
  have hcongr := rowsFault_congr shape hrows (shape.map (·.topK.toNat)) 0
  simp only [fault?, Batch.rows, List.length_map, List.zip_map_right]
  rw [show (Prod.map id fun ws : List α => ws.map g) = fun r : List UInt32 × List α => (r.1, r.2.map g) from rfl,
    show (Prod.map id fun ws : List α => ws.map g') = fun r : List UInt32 × List α => (r.1, r.2.map g') from rfl,
    hcongr]

theorem fault_throughSingle (shape : Option Shape) (experts : List (List UInt32)) {rows : List (List Real64)}
    (h : ∀ row ∈ rows, ∀ w ∈ row, w.throughSingle.isFinite = w.isFinite) :
    fault? shape ⟨experts, rows.map (·.map Binary.throughSingle)⟩ = fault? shape ⟨experts, rows⟩ := by
  have hcongr : fault? shape ⟨experts, rows.map (·.map Binary.throughSingle)⟩ =
      fault? shape ⟨experts, rows.map (·.map id)⟩ := fault_congr shape experts h
  simpa using hcongr

/-! ## Routes -/

theorem routes_congr (experts : List (List UInt32)) {weights weights' : List (List Real64)}
    (h : weights.map (·.map roundWeight) = weights'.map (·.map roundWeight)) (requestId : String) (layer : UInt64)
    (first : Nat) :
    routes ⟨experts, weights⟩ requestId layer first = routes ⟨experts, weights'⟩ requestId layer first := by
  have hroutes : ∀ ws : List (List Real64), routes ⟨experts, ws⟩ requestId layer first =
      (experts.zip (ws.map (·.map roundWeight))).zipIdx.map fun row =>
        { requestId, token := UInt64.ofNat (first + row.2), layer, experts := row.1.1, weights := row.1.2 } := by
    intro ws
    simp only [routes, Batch.rows, List.zip_map_right, List.zipIdx_map, List.map_map]
    rfl
  rw [hroutes, hroutes, h]

end Batch

namespace Capture

/-! ## Recordings -/

def RecordedAlike (a b : Status × Capture) : Prop := a.1 = b.1 ∧ a.2.bytes = b.2.bytes

instance (a b : Status × Capture) : Decidable (RecordedAlike a b) := inferInstanceAs (Decidable (_ ∧ _))

theorem routesOf_weights (c : Capture) (sub : Submission) {shape : Option Shape} (h : sub.batch.fault? shape = none) :
    (c.routesOf sub).map (·.weights) = sub.batch.weights.map (·.map roundWeight) :=
  Batch.routes_weights (Batch.fault_none h).1 _ _ _

section

variable {c : Capture} (hopen : c.enabled = true) (hattached : c.attached = true)

include hopen hattached

theorem recordBatch_of_fault {b : Batch} {e : CaptureError} (h : b.fault? c.shape = some e)
    (requestId : Option String) : c.recordBatch c.layer b requestId = (.degraded e, c) := by
  rw [recordBatch, if_neg (by simp [hopen]), if_neg (not_not_intro rfl), if_neg (by simp [hattached]), h]

variable (hs : c.writer.stream.NeverFails)

include hs

theorem recordBatch_of_sound {b : Batch} (h : b.fault? c.shape = none) (requestId : Option String) :
    (c.recordBatch c.layer b requestId).1 = .written b.experts.length ∧
      (c.recordBatch c.layer b requestId).2.bytes =
        c.bytes ++ Writer.lines ((c.routesOf ⟨c.layer, b, requestId⟩).map .route) := by
  have ht : c.Takes (.batch c.layer b requestId) ⟨c.layer, b, requestId⟩ := ⟨rfl, hopen, hattached, rfl, h⟩
  obtain ⟨w, -, hcall⟩ := ht.written hs
  have hreply : (Entry.mk c (.batch c.layer b requestId)).reply = .status (.written b.experts.length) := by
    rw [Entry.reply, hcall]
  refine ⟨Reply.status.inj hreply, ?_⟩
  have hbytes := call_bytes_neverFails hs (.batch c.layer b requestId)
  rwa [Entry.written, hreply, ht.recordsOf] at hbytes

/-- Batches of the same experts that are both written leave the same bytes exactly when their
    weights are rounded alike. -/
theorem recordings_alike_iff {experts : List (List UInt32)} {weights weights' : List (List Real64)}
    (h : Batch.fault? c.shape ⟨experts, weights⟩ = none) (h' : Batch.fault? c.shape ⟨experts, weights'⟩ = none)
    (hfinite : ∀ row ∈ weights, ∀ w ∈ row, (roundWeight w).isFinite = true) (requestId : Option String) :
    RecordedAlike (c.recordBatch c.layer ⟨experts, weights⟩ requestId)
        (c.recordBatch c.layer ⟨experts, weights'⟩ requestId) ↔
      weights.map (·.map roundWeight) = weights'.map (·.map roundWeight) := by
  obtain ⟨hstatus, hbytes⟩ := recordBatch_of_sound hopen hattached hs h requestId
  obtain ⟨hstatus', hbytes'⟩ := recordBatch_of_sound hopen hattached hs h' requestId
  have hweights := c.routesOf_weights ⟨c.layer, ⟨experts, weights⟩, requestId⟩ h
  have hweights' := c.routesOf_weights ⟨c.layer, ⟨experts, weights'⟩, requestId⟩ h'
  unfold RecordedAlike
  rw [hstatus, hstatus', hbytes, hbytes', List.append_cancel_left_eq]
  constructor
  · rintro ⟨-, hlines⟩
    have hwritten : ∀ ws ∈ (c.routesOf ⟨c.layer, ⟨experts, weights⟩, requestId⟩).map (·.weights),
        ∀ w ∈ ws, w.isFinite = true := by
      rw [hweights, List.forall_mem_map]
      exact fun row hrow => List.forall_mem_map.mpr (hfinite row hrow)
    have hsame := Writer.weights_of_lines (List.forall_mem_map.mp hwritten) hlines
    rwa [hweights, hweights'] at hsame
  · intro hrounded
    exact ⟨rfl, by simp only [routesOf, Batch.routes_congr experts hrounded]⟩

theorem fault_of_alike {b b' : Batch} {requestId : Option String}
    (h : RecordedAlike (c.recordBatch c.layer b requestId) (c.recordBatch c.layer b' requestId)) :
    b.fault? c.shape = b'.fault? c.shape := by
  have hstatus := h.1
  cases hb : b.fault? c.shape with
  | none =>
    rw [(recordBatch_of_sound hopen hattached hs hb requestId).1] at hstatus
    cases hb' : b'.fault? c.shape with
    | none => rfl
    | some e =>
      rw [recordBatch_of_fault hopen hattached hb'] at hstatus
      cases hstatus
  | some e =>
    rw [recordBatch_of_fault hopen hattached hb] at hstatus
    cases hb' : b'.fault? c.shape with
    | none =>
      rw [(recordBatch_of_sound hopen hattached hs hb' requestId).1] at hstatus
      cases hstatus
    | some e' =>
      rw [recordBatch_of_fault hopen hattached hb'] at hstatus
      cases hstatus
      rfl

/-- Rows without a fault are recorded alike after single precision when all their weights survive it. -/
theorem throughSingle_alike_iff {experts : List (List UInt32)} {rows : List (List Real64)}
    (h : Batch.fault? c.shape ⟨experts, rows⟩ = none) (requestId : Option String) :
    RecordedAlike (c.recordBatch c.layer ⟨experts, rows.map (·.map Binary.throughSingle)⟩ requestId)
        (c.recordBatch c.layer ⟨experts, rows⟩ requestId) ↔
      ∀ row ∈ rows, ∀ w ∈ row, w.Survives := by
  have hrounded : (rows.map (·.map Binary.throughSingle)).map (·.map roundWeight) = rows.map (·.map roundWeight) ↔
      ∀ row ∈ rows, ∀ w ∈ row, roundWeight w.throughSingle = roundWeight w := by
    simp only [List.map_map, List.map_inj_left, Function.comp_apply]
  have hscales : (∀ row ∈ rows, ∀ w ∈ row, (Binary.convert binary32 w).isFinite = true) →
      ∀ row ∈ rows.map (·.map Binary.throughSingle), ∀ w ∈ row, (roundWeight w).isFinite = true := by
    intro hrange
    simp only [List.forall_mem_map]
    exact fun row hrow w hw => (roundWeight_convert_isFinite (hrange row hrow w hw)).2
  constructor
  · intro halike
    have hsound := (fault_of_alike hopen hattached hs halike).trans h
    have hrange : ∀ row ∈ rows, ∀ w ∈ row, (Binary.convert binary32 w).isFinite = true := by
      intro row hrow w hw
      rw [← Binary.throughSingle_isFinite]
      exact Batch.weights_isFinite hsound _ (List.mem_map_of_mem hrow) _ (List.mem_map_of_mem hw)
    have hsame := hrounded.mp ((recordings_alike_iff hopen hattached hs hsound h (hscales hrange) requestId).mp halike)
    exact fun row hrow w hw => ⟨hrange row hrow w hw, hsame row hrow w hw⟩
  · intro hall
    have hsound : Batch.fault? c.shape ⟨experts, rows.map (·.map Binary.throughSingle)⟩ = none := by
      rw [Batch.fault_throughSingle, h]
      intro row hrow w hw
      rw [Binary.throughSingle_isFinite, (hall row hrow w hw).1, Batch.weights_isFinite h row hrow w hw]
    refine (recordings_alike_iff hopen hattached hs hsound h ?_ requestId).mpr ?_
    · exact hscales fun row hrow w hw => (hall row hrow w hw).1
    · exact hrounded.mpr fun row hrow w hw => (hall row hrow w hw).2

end

/-! ## Tensors -/

/-- Two tensors of rank two with as many places, the ids 32-bit numbers and the weights doubles, hold
    rows; the batch is that of the rows with their weights in single precision. -/
theorem batch_of_doubles {ids weights : Tensor} (hrank : ids.shape.length = 2) (hshape : weights.shape = ids.shape)
    (hrange : ∀ id ∈ ids.elements.integers, 0 ≤ id ∧ id < UInt32.size) {xs : List Real64}
    (hreal : weights.elements = .real binary64 xs) :
    ∃ (experts : List (List UInt32)) (rows : List (List Real64)),
      RowsOf ids.shape ids.elements.integers (experts.map (·.map fun e => (e.toNat : Int))) ∧
      RowsOf weights.shape xs rows ∧
      Tensor.batch ids weights = .ok (Batch.ofWeights experts (rows.map (·.map (Binary.convert binary32)))) := by
  obtain ⟨r, k, hsize⟩ := List.length_eq_two.mp hrank
  have hcount : ids.elements.integers.length = r * k := by
    rw [ids.elements.length_integers, ids.filled, hsize]
    simp
  have hcount' : xs.length = r * k := by
    have hfilled := weights.filled
    rw [hreal, hshape, hsize] at hfilled
    simpa [Elements.count] using hfilled
  have hrows := Tensor.rowsOf_split hcount
  rcases Tensor.batch_reads hsize (hshape.trans hsize) with ⟨row, id, hfirst, -⟩ | ⟨experts, hexperts, hread⟩
  · obtain ⟨ids', hmem, i, hi, hout⟩ := hfirst.outside
    refine absurd (hrange i ?_) hout
    rw [← hrows.listed]
    exact List.mem_flatten_of_mem hmem hi
  · refine ⟨experts, Tensor.split k r xs, ?_, ?_, ?_⟩
    · rw [hsize, hexperts]
      exact hrows
    · rw [hshape, hsize]
      exact Tensor.rowsOf_split hcount'
    · rw [hread, hreal, Elements.reals, Tensor.split_map]

/-- An open sink on a stream that never fails is given two tensors of rank two for its layer, ids
    that are 32-bit numbers and as many weights of double precision. The status, the stream and all
    else come out as when their rows are recorded with the weights in single precision. That is
    alike in status and bytes to recording the rows in their own precision exactly when every
    weight survives single precision, if the rows have no fault, and otherwise exactly when their
    fault is the same in single precision. Rows whose finite weights all survive are recorded alike. -/
theorem double_tensors_are_recorded_alike_iff {c : Capture} (hopen : c.enabled = true) (hattached : c.attached = true)
    (hs : c.writer.stream.NeverFails) {layer : UInt64} (hlayer : layer = c.layer) {ids weights : Tensor}
    (hrank : ids.shape.length = 2) (hshape : weights.shape = ids.shape)
    (hrange : ∀ id ∈ ids.elements.integers, 0 ≤ id ∧ id < UInt32.size) {xs : List Real64}
    (hreal : weights.elements = .real binary64 xs) (requestId : Option String) :
    ∃ (experts : List (List UInt32)) (rows : List (List Real64)),
      RowsOf ids.shape ids.elements.integers (experts.map (·.map fun e => (e.toNat : Int))) ∧
      RowsOf weights.shape xs rows ∧
      let doubles := Batch.ofWeights experts rows
      let singles := Batch.ofWeights experts (rows.map (·.map (Binary.convert binary32)))
      let recorded := c.recordTensors layer ids weights requestId
      let expected := c.recordBatch layer doubles requestId
      recorded = c.recordBatch layer singles requestId ∧
      (doubles.fault? c.shape = none → (RecordedAlike recorded expected ↔ ∀ w ∈ xs, w.Survives)) ∧
      (∀ e, doubles.fault? c.shape = some e → (RecordedAlike recorded expected ↔ singles.fault? c.shape = some e)) ∧
      ((∀ w ∈ xs, w.isFinite = true → w.Survives) → RecordedAlike recorded expected) := by
  obtain ⟨experts, rows, hexperts, hrows, hbatch⟩ := batch_of_doubles hrank hshape hrange hreal
  refine ⟨experts, rows, hexperts, hrows, ?_⟩
  intro doubles singles recorded expected
  have hrecorded : recorded = c.recordBatch layer singles requestId := by
    rw [show recorded = _ from recordTensors_eq hopen hlayer ids weights requestId, hbatch]
  subst hlayer
  have hdoubles : doubles = ⟨experts, rows⟩ := Batch.ofWeights_double experts rows
  have hsingles : singles = ⟨experts, rows.map (·.map Binary.throughSingle)⟩ := Batch.ofWeights_single experts rows
  have hlisted : ∀ {P : Real64 → Prop}, (∀ w ∈ xs, P w) ↔ ∀ row ∈ rows, ∀ w ∈ row, P w := by
    intro P
    rw [← hrows.listed, List.forall_mem_flatten]
  have hsound : doubles.fault? c.shape = none → (RecordedAlike recorded expected ↔ ∀ w ∈ xs, w.Survives) := by
    intro h
    have hexpected : expected = c.recordBatch c.layer ⟨experts, rows⟩ requestId := by rw [← hdoubles]
    rw [hdoubles] at h
    rw [hrecorded, hexpected, hsingles, hlisted]
    exact throughSingle_alike_iff hopen hattached hs h requestId
  have hfaulty : ∀ e, doubles.fault? c.shape = some e →
      (RecordedAlike recorded expected ↔ singles.fault? c.shape = some e) := by
    intro e h
    rw [hrecorded]
    constructor
    · exact fun halike => (fault_of_alike hopen hattached hs halike).trans h
    · intro h'
      rw [show expected = _ from recordBatch_of_fault hopen hattached h requestId,
        recordBatch_of_fault hopen hattached h' requestId]
      exact ⟨rfl, rfl⟩
  refine ⟨hrecorded, hsound, hfaulty, ?_⟩
  intro hall
  cases hfault : doubles.fault? c.shape with
  | none =>
    rw [hdoubles] at hfault
    have hfinite := hlisted.mpr (Batch.weights_isFinite hfault)
    exact (hsound (hdoubles ▸ hfault)).mpr fun w hw => hall w hw (hfinite w hw)
  | some e =>
    refine (hfaulty e hfault).mpr ?_
    rw [hsingles, Batch.fault_throughSingle, ← hdoubles, hfault]
    refine hlisted.mp fun w hw => ?_
    rw [Binary.throughSingle_isFinite]
    cases hfinite : w.isFinite with
    | true => exact (hall w hw hfinite).1
    | false => exact Binary.convert_not_finite binary32 hfinite

theorem halves_and_quarters_are_recorded_alike :
    let half := Binary.ofDecimal binary64 false 5 (-1)
    let quarter := Binary.ofDecimal binary64 false 25 (-2)
    let ids : Tensor := ⟨[2, 2], .i64 [2, 0, 1, 4], rfl⟩
    let weights : Tensor := ⟨[2, 2], .real binary64 [half, quarter, quarter, half], rfl⟩
    RecordedAlike ((onto {} 3).recordTensors 3 ids weights none)
      ((onto {} 3).recordBatch 3 (Batch.ofWeights [[2, 0], [1, 4]] [[half, quarter], [quarter, half]]) none) := by
  intro half quarter ids weights
  have hs : (onto {} 3).writer.stream.NeverFails := ⟨by simp [onto], by simp [onto]⟩
  have hrange : ∀ id ∈ ids.elements.integers, 0 ≤ id ∧ id < UInt32.size := by decide
  have hshape : weights.shape = ids.shape := rfl
  have hreal : weights.elements = .real binary64 [half, quarter, quarter, half] := rfl
  obtain ⟨experts, rows, hids, hweights, -, -, -, halike⟩ :=
    double_tensors_are_recorded_alike_iff rfl rfl hs rfl rfl hshape hrange hreal none
  obtain rfl : rows = [[half, quarter], [quarter, half]] := hweights.eq_split
  have hinjective : Function.Injective fun e : UInt32 => (e.toNat : Int) :=
    fun a b h => UInt32.toNat_inj.mp (Int.ofNat_inj.mp h)
  obtain rfl : experts = [[2, 0], [1, 4]] :=
    List.map_injective_iff.mpr (List.map_injective_iff.mpr hinjective) hids.eq_split
  exact halike (by decide +kernel)

/-- In single precision the double nearest 0.3000005 falls below that: a batch of its row writes
    0.300001, the same row in tensors 0.3. -/
theorem a_weight_of_seven_places_is_written_differently :
    let w := Binary.ofDecimal binary64 false 3000005 (-7)
    let half := Binary.ofDecimal binary64 false 5 (-1)
    let recorded := (onto {} 0).recordTensors 0 ⟨[1, 2], .i64 [2, 0], rfl⟩ ⟨[1, 2], .real binary64 [w, half], rfl⟩ none
    let expected := (onto {} 0).recordBatch 0 (Batch.ofWeights [[2, 0]] [[w, half]]) none
    recorded.1 = .written 1 ∧ expected.1 = .written 1 ∧ ¬ RecordedAlike recorded expected ∧
      (Json.ofReal (roundWeight w.throughSingle)).compact = ['0', '.', '3'] ∧
      (Json.ofReal (roundWeight w)).compact = ['0', '.', '3', '0', '0', '0', '0', '1'] := by
  decide +kernel

end Capture

end ExpertRouting
