/-
  ExpertRouting.Proofs.Capture.WeightRange — which accepted batches can be read back.

  A batch is accepted when its weights are finite, but what is written is the rounded
  weight, and that is finite only if a million times the weight is in range. So every line
  of an accepted batch holds a route exactly when all its weights are that small
  (`written_lines_hold_routes_iff`). Weights of the narrower formats always are; a large
  weight of double precision is accepted and written as null
  (`a_large_weight_is_written_as_null`).
-/

import ExpertRouting.Proofs.Capture.Batch
import ExpertRouting.Proofs.Capture.Journal
import ExpertRouting.Proofs.Trace.Codec
import ExpertRouting.Proofs.Trace.Weight

namespace ExpertRouting

def Trace.HoldsRoutes (bytes : List UInt8) : Prop :=
  ∀ line ∈ Text.lines (Utf8.decode bytes), ∀ number, ∃ r, readLine number line = .ok (some (.route r))

/-- The lines of a sound batch hold routes exactly when its weights scale. -/
theorem Batch.holdsRoutes_iff {b : Batch} {shape : Option Shape} (h : b.fault? shape = none) (requestId : String)
    (layer : UInt64) (first : Nat) :
    Trace.HoldsRoutes (Writer.lines ((b.routes requestId layer first).map .route)) ↔
      ∀ row ∈ b.weights, ∀ w ∈ row, w.Scales := by
  have hlines : Trace.HoldsRoutes (Writer.lines ((b.routes requestId layer first).map .route)) ↔
      ∀ ws ∈ (b.routes requestId layer first).map (·.weights), ∀ w ∈ ws, w.isFinite = true := by
    unfold Trace.HoldsRoutes
    rw [Writer.lines_text, List.map_map, List.forall_mem_map, List.forall_mem_map]
    refine forall₂_congr fun r _ => ?_
    simp only [Function.comp_apply, Trace.readLine_route_iff, forall_const]
  rw [hlines, routes_weights (fault_none h).1, List.forall_mem_map]
  refine forall₂_congr fun row hrow => ?_
  rw [List.forall_mem_map]
  exact forall₂_congr fun w hw => roundWeight_isFinite_iff (weights_isFinite h row hrow w hw)

namespace Capture

theorem taken_of_written {c : Capture} {layer : UInt64} {b : Batch} {requestId : Option String} {n : Nat}
    (h : (c.recordBatch layer b requestId).1 = .written n) :
    c.Takes (.batch layer b requestId) ⟨layer, b, requestId⟩ := by
  have he := call_effect c (.batch layer b requestId)
  rw [show (c.call (.batch layer b requestId)).1 = .status (.written n) from congrArg Reply.status h] at he
  generalize (c.call (.batch layer b requestId)).2 = after at he
  have key : ∀ sub, c.Takes (.batch layer b requestId) sub →
      c.Takes (.batch layer b requestId) ⟨layer, b, requestId⟩ := by
    intro sub ht
    obtain rfl : (⟨layer, b, requestId⟩ : Submission) = sub := Option.some.inj ht.submits
    exact ht
  cases he with
  | refused _ s hs => cases hs
  | empty _ sub ht hb => exact key sub ht
  | batch _ sub w ht hb hw => exact key sub ht

/-- What a written batch adds to the stream: as many lines as it reports. Each of them
    holds a route exactly when a million times every weight is in range, and that is so
    whenever the weights came in one of the narrower formats. -/
theorem written_lines_hold_routes_iff {c : Capture} {layer : UInt64} {b : Batch} {requestId : Option String} {n : Nat}
    (h : (c.recordBatch layer b requestId).1 = .written n) :
    ∃ added, (c.recordBatch layer b requestId).2.bytes = c.bytes ++ added ∧
      (Text.lines (Utf8.decode added)).length = n ∧
      (Trace.HoldsRoutes added ↔ ∀ row ∈ b.weights, ∀ w ∈ row, w.Scales) ∧
      ∀ f, f = binary16 ∨ f = bfloat16 ∨ f = binary32 → ∀ experts (weights : List (List (Binary f))),
        b = Batch.ofWeights experts weights → Trace.HoldsRoutes added := by
  have ht := taken_of_written h
  have hreply : (Entry.mk c (.batch layer b requestId)).reply = .status (.written n) := congrArg Reply.status h
  have hwritten : (Entry.mk c (.batch layer b requestId)).written = (c.routesOf ⟨layer, b, requestId⟩).map .route := by
    rw [Entry.written, hreply]
    exact ht.recordsOf
  have hholds := Batch.holdsRoutes_iff ht.sound (c.origin requestId).1 c.layer (c.origin requestId).2
  refine ⟨Writer.lines ((c.routesOf ⟨layer, b, requestId⟩).map .route), ?_, ?_, hholds, ?_⟩
  · have hbytes := call_bytes c (.batch layer b requestId)
    rw [Entry.left, hreply, hwritten] at hbytes
    exact hbytes
  · have hcount := count_eq_length c (.batch layer b requestId)
    rw [hreply, hwritten] at hcount
    rw [Writer.lines_text, List.length_map]
    exact hcount.symm
  · rintro f hf experts weights rfl
    refine hholds.mpr fun row hrow w hw => ?_
    obtain ⟨xs, -, rfl⟩ := List.mem_map.mp hrow
    obtain ⟨x, -, rfl⟩ := List.mem_map.mp hw
    exact convert_scales hf x

theorem a_written_batch_holds_routes :
    let b : Batch := ⟨[[2, 0]], [[Binary.ofDecimal binary64 false 5 (-1), Binary.ofDecimal binary64 false 25 (-2)]]⟩
    let c := onto {} 0
    (c.recordBatch 0 b none).1 = .written 1 ∧
      ∃ added, (c.recordBatch 0 b none).2.bytes = c.bytes ++ added ∧
        (Text.lines (Utf8.decode added)).length = 1 ∧
        (Trace.HoldsRoutes added ↔ ∀ row ∈ b.weights, ∀ w ∈ row, w.Scales) ∧
        ∀ f, f = binary16 ∨ f = bfloat16 ∨ f = binary32 → ∀ experts (weights : List (List (Binary f))),
          b = Batch.ofWeights experts weights → Trace.HoldsRoutes added := by
  intro b c
  have h : (c.recordBatch 0 b none).1 = .written 1 := by decide +kernel
  exact ⟨h, written_lines_hold_routes_iff h⟩

/-- A finite weight of 10^303 is accepted and written as null, and its line holds no record. -/
theorem a_large_weight_is_written_as_null :
    let w := Binary.ofDecimal binary64 false 1 303
    let recorded := (onto {} 0).recordBatch 0 ⟨[[0]], [[w]]⟩ none
    w.isFinite = true ∧ recorded.1 = .written 1 ∧ (Json.ofReal (roundWeight w)).compact = ['n', 'u', 'l', 'l'] ∧
      (Text.lines (Utf8.decode recorded.2.bytes)).map (Trace.readLine 1) = [.error (.malformed 1 .mismatch)] := by
  decide +kernel

end Capture

end ExpertRouting
