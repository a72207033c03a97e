/-
  ExpertRouting.Proofs.Command.Batches — the batches of a bench run.

  A run draws its rows batch by batch and hands each batch to the sink, which is the same as
  drawing all rows first and recording them in pieces of the sizes (`drive_eq`). Rows that fit
  the shape and have finite weights make batches without a fault (`Batch.ofRows_sound`). Of
  batches of `size` rows, the last one perhaps smaller, the row at position `i` is row
  `i % size` of batch `i / size` (`positions_batchSizes`).
-/

import Mathlib.Data.List.SplitLengths
import ExpertRouting.Command.Run
import ExpertRouting.Proofs.Capture.Recording
import ExpertRouting.Proofs.Synthetic.Weights
import ExpertRouting.Proofs.Trace.Weight

namespace ExpertRouting

/-! ## Rows as batches -/

namespace Batch

theorem rows_ofRows (rows : List Row) :
    (ofRows rows).rows = rows.map fun row => (row.experts, row.weights.map (Binary.convert binary64)) := by
  simp only [ofRows, ofWeights, Batch.rows, List.map_map, List.zip_map', Function.comp_apply]

theorem ofRows_sound {shape : Shape} {rows : List Row} (hfits : ∀ row ∈ rows, row.Fits shape)
    (hfinite : ∀ row ∈ rows, ∀ w ∈ row.weights, w.isFinite = true) : (ofRows rows).fault? (some shape) = none := by
  refine fault_of_sound (by simp [ofRows, ofWeights]) ?_
  rw [rows_ofRows, List.forall_mem_map]
  intro row hrow
  have h := hfits row hrow
  refine ⟨?_, ?_, ?_, ?_⟩
  · rw [List.length_map, h.experts, h.weights]
  · rintro k ⟨⟩
    exact h.experts
  · rintro s ⟨⟩
    exact h.below
  · rw [List.forall_mem_map]
    exact fun w hw => (roundWeight_convert_isFinite (hfinite row hrow w hw)).1

theorem ofRows_routes_isFinite {rows : List Row} (hfinite : ∀ row ∈ rows, ∀ w ∈ row.weights, w.isFinite = true)
    {requestId : String} {layer : UInt64} {first : Nat} :
    ∀ r ∈ (ofRows rows).routes requestId layer first, ∀ w ∈ r.weights, w.isFinite = true := by
  intro r hr
  obtain ⟨-, found, hfound, -, hweights⟩ := routes_row r hr
  rw [rows_ofRows] at hfound
  obtain ⟨row, hrow, rfl⟩ := List.mem_map.mp hfound
  rw [hweights, List.forall_mem_map, List.forall_mem_map]
  exact fun w hw => (roundWeight_convert_isFinite (hfinite row hrow w hw)).2

/-- The ids and the numbers of a batch's routes, counted from zero. -/
theorem ofRows_positions (rows : List Row) (requestId : String) (layer : UInt64) :
    ((ofRows rows).routes requestId layer 0).map (fun r => (r.requestId, r.token)) =
      (List.range rows.length).map fun token => (requestId, UInt64.ofNat token) := by
  have hnumbers : ((ofRows rows).rows.zipIdx).map Prod.snd = List.range rows.length := by
    rw [List.zipIdx_map_snd, rows_ofRows, List.length_map, List.range_eq_range']
  rw [routes, List.map_map, ← hnumbers, List.map_map]
  refine List.map_congr_left fun r _ => ?_
  simp

end Batch

namespace Command.Bench

/-! ## Sizes -/

/-- Every row of batches of some sizes: the number of its batch, and its number in the batch. -/
def positions (sizes : List Nat) : List (Nat × Nat) :=
  sizes.zipIdx.flatMap fun part => (List.range part.1).map fun token => (part.2, token)

theorem positions_concat (sizes : List Nat) (n : Nat) :
    positions (sizes ++ [n]) = positions sizes ++ (List.range n).map fun token => (sizes.length, token) := by
  simp [positions, List.zipIdx_append]

theorem sum_batchSizes (size tokens : Nat) : (batchSizes size tokens).sum = tokens := by
  have hsum : (batchSizes size tokens).sum = tokens / size * size + tokens % size := by
    unfold batchSizes
    split
    · rename_i hrest
      simp [hrest]
    · simp
  rw [hsum, Nat.div_add_mod']

theorem positions_batchSizes {size : Nat} (hsize : 0 < size) (tokens : Nat) :
    positions (batchSizes size tokens) = (List.range tokens).map fun i => (i / size, i % size) := by
  have hpart : ∀ q n, n ≤ size → (List.range n).map (fun token => (q, token)) =
      ((List.range n).map fun token => q * size + token).map fun i => (i / size, i % size) := by
    intro q n hn
    rw [List.map_map]
    refine List.map_congr_left fun token htoken => ?_
    have hlt : token < size := (List.mem_range.mp htoken).trans_le hn
    rw [Function.comp_apply, Nat.add_comm, Nat.add_mul_div_right _ _ hsize, Nat.add_mul_mod_self_right,
      Nat.div_eq_of_lt hlt, Nat.mod_eq_of_lt hlt, Nat.zero_add]
  have hfull : ∀ q, positions (List.replicate q size) = (List.range (q * size)).map fun i => (i / size, i % size) := by
    intro q
    induction q with
    | zero => simp [positions]
    | succ q ih =>
      rw [List.replicate_succ', positions_concat, ih, List.length_replicate, hpart q size (Nat.le_refl _),
        ← List.map_append, Nat.succ_mul, ← List.range_add]
  have hrest : tokens % size < size := Nat.mod_lt _ hsize
  have htokens := Nat.div_add_mod' tokens size
  unfold batchSizes
  split
  · rename_i hzero
    rw [hzero, Nat.add_zero] at htokens
    rw [List.append_nil, hfull, htokens]
  · rw [positions_concat, hfull, List.length_replicate, hpart _ _ hrest.le, ← List.map_append, ← List.range_add, htokens]

/-! ## The run -/

def batchCalls (layer : UInt64) (sizes : List Nat) (rows : List Row) : List Call :=
  ((sizes.splitLengths rows).map Batch.ofRows).map fun b => .batch layer b none

/-- Drawing and recording batch by batch records the rows that are drawn at once. -/
theorem drive_eq (layer : UInt64) {sizes : List Nat} {r r' : Router} {rows : List Row}
    (hrows : r.routeBatch sizes.sum = some (rows, r')) (c : Capture) :
    drive layer r c sizes = some (c.run (batchCalls layer sizes rows)).2 := by
  induction sizes generalizing r rows c with
  | nil => rfl
  | cons n sizes ih =>
    rw [List.sum_cons] at hrows
    obtain ⟨first, next, second, hfirst, hsecond, rfl⟩ := Router.routeBatch_add_iff.mp hrows
    have hlength := Router.length_routeBatch hfirst
    have hsplit : (n :: sizes).splitLengths (first ++ second) = first :: sizes.splitLengths second := by
      rw [List.splitLengths_cons, ← hlength, List.take_left, List.drop_left]
    rw [drive, hfirst]
    simp only
    rw [ih hsecond, batchCalls, batchCalls, hsplit]
    rfl

/-- The routes of rows that are recorded in batches, each under the next id. -/
def batchRoutes (layer : UInt64) (sizes : List Nat) (rows : List Row) : List Route :=
  ((sizes.splitLengths rows).map Batch.ofRows).zipIdx.flatMap fun part =>
    part.1.routes (Capture.mintedId part.2) layer 0

/-- The id and the number of a route are the position of its row. -/
theorem batchRoutes_positions (layer : UInt64) {sizes : List Nat} {rows : List Row} (h : sizes.sum = rows.length) :
    (batchRoutes layer sizes rows).map (fun r => (r.requestId, r.token)) =
      (positions sizes).map fun position => (Capture.mintedId position.1, UInt64.ofNat position.2) := by
  have hsizes := List.map_splitLengths_length rows sizes h.le
  have hpositions : positions sizes =
      (sizes.splitLengths rows).zipIdx.flatMap fun part => (List.range part.1.length).map fun token => (part.2, token) := by
    conv_lhs => rw [← hsizes]
    rw [positions, List.zipIdx_map, List.flatMap_map]
    rfl
  rw [hpositions, batchRoutes, List.zipIdx_map, List.flatMap_map, List.map_flatMap, List.map_flatMap]
  refine List.flatMap_congr fun part _ => ?_
  rw [List.map_map]
  exact Batch.ofRows_positions part.1 _ layer

theorem mem_rows_of_part {sizes : List Nat} {rows part : List Row} (hsum : rows.length ≤ sizes.sum)
    (hpart : part ∈ sizes.splitLengths rows) : ∀ row ∈ part, row ∈ rows := by
  intro row hrow
  have hflat := List.mem_flatten_of_mem hpart hrow
  rwa [List.flatten_splitLengths rows sizes hsum] at hflat

section

variable (layer : UInt64) {s : Session} {sizes : List Nat} {rows : List Row}
  (hsum : rows.length ≤ sizes.sum) (hfits : ∀ row ∈ rows, row.Fits s.shape)
  (hfinite : ∀ row ∈ rows, ∀ w ∈ row.weights, w.isFinite = true)

include hsum hfits hfinite

theorem parts_sound : ∀ part ∈ sizes.splitLengths rows,
    (Batch.ofRows part).fault? (some s.shape) = none ∧ ∀ row ∈ part, ∀ w ∈ row.weights, w.isFinite = true := by
  intro part hpart
  have hmem := mem_rows_of_part hsum hpart
  exact ⟨Batch.ofRows_sound (fun row hrow => hfits row (hmem row hrow)) fun row hrow => hfinite row (hmem row hrow),
    fun row hrow => hfinite row (hmem row hrow)⟩

theorem recording_batchCalls {c : Capture} (h : Capture.Recording layer s c) (hminted : c.minted = 0) :
    (c.run (batchCalls layer sizes rows)).2.bytes =
      c.bytes ++ Writer.lines ((batchRoutes layer sizes rows).map .route) := by
  have hcalls : ∀ k ∈ batchCalls layer sizes rows, k.records = true := by
    intro k hk
    obtain ⟨b, -, rfl⟩ := List.mem_map.mp hk
    rfl
  have hbatches : ∀ b ∈ (sizes.splitLengths rows).map Batch.ofRows, b.fault? (some s.shape) = none :=
    List.forall_mem_map.mpr fun part hpart => (parts_sound hsum hfits hfinite part hpart).1
  have hroutes := h.runRoutes hbatches
  rw [hminted] at hroutes
  rw [Capture.recording_bytes h.stream hcalls, batchCalls, hroutes, batchRoutes]

theorem batchRoutes_sound : ∀ r ∈ batchRoutes layer sizes rows,
    (∀ w ∈ r.weights, w.isFinite = true) ∧ Trace.misfit? (s.header layer) r = none := by
  intro r hr
  obtain ⟨⟨b, n⟩, hb, hr⟩ := List.mem_flatMap.mp hr
  obtain ⟨part, hpart, rfl⟩ := List.mem_map.mp (List.fst_mem_of_mem_zipIdx hb)
  obtain ⟨hsound, hweights⟩ := parts_sound hsum hfits hfinite part hpart
  exact ⟨Batch.ofRows_routes_isFinite hweights r hr, Batch.routes_fit hsound rfl rfl List.mem_cons_self r hr⟩

end

end Command.Bench

end ExpertRouting
