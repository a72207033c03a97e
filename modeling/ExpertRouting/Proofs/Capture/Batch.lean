/-
  ExpertRouting.Proofs.Capture.Batch — what a batch without a fault looks like.

  Rows are checked one after another against the width and the shape. When no row has a
  fault, every row has as many weights as experts, the width of the shape where there is
  one, only experts that the shape allows, and only finite weights (`Batch.fault_none`); and
  a batch of such rows has no fault (`Batch.fault_of_sound`). So each route of a sound batch
  fits a header of its shape (`Batch.routes_fit`).
-/

import ExpertRouting.Capture.Batch
import ExpertRouting.Proofs.Trace.Verification

namespace ExpertRouting

namespace Batch

structure RowSound (shape : Option Shape) (width : Option Nat) (row : List UInt32 × List Real64) : Prop where
  paired : row.1.length = row.2.length
  width : ∀ k, width = some k → row.1.length = k
  experts : ∀ s, shape = some s → ∀ e ∈ row.1, e.toNat < s.numExperts.toNat
  finite : ∀ w ∈ row.2, w.isFinite = true

theorem rowFault_none {shape : Option Shape} {width row : Nat} {experts : List UInt32} {weights : List Real64}
    (h : rowFault? shape width row experts weights = none) : RowSound shape (some width) (experts, weights) := by
  unfold rowFault? at h
  by_cases hpaired : experts.length = weights.length
  case neg => rw [if_pos hpaired] at h; cases h
  rw [if_neg (not_not_intro hpaired)] at h
  by_cases hwidth : experts.length = width
  case neg => rw [if_pos hwidth] at h; cases h
  rw [if_neg (not_not_intro hwidth)] at h
  split at h
  · cases h
  · rename_i hexperts
    refine ⟨hpaired, fun k hk => hwidth.trans (Option.some.inj hk), ?_, ?_⟩
    · rintro s rfl e he
      have hall := List.find?_eq_none.mp (Option.map_eq_none_iff.mp hexperts) e he
      simpa using hall
    · intro w hw
      have hall := List.findIdx?_eq_none_iff.mp (Option.map_eq_none_iff.mp h) w hw
      simpa using hall

/-- Without a width the first row sets it, so a width in force is kept row by row. -/
theorem rowsFault_none {shape : Option Shape} :
    ∀ (rows : List (List UInt32 × List Real64)) (width : Option Nat) (row : Nat),
      rowsFault? shape width row rows = none → ∀ r ∈ rows, RowSound shape width r := by
  intro rows
  induction rows with
  | nil => intro _ _ _ r hr; cases hr
  | cons first rest ih =>
    intro width row h r hr
    obtain ⟨experts, weights⟩ := first
    obtain ⟨hfirst, hrest⟩ := Option.or_eq_none_iff.mp h
    rcases List.mem_cons.mp hr with rfl | hr
    · have hs := rowFault_none hfirst
      exact ⟨hs.paired, fun k hk => hs.width k (by rw [hk]; rfl), hs.experts, hs.finite⟩
    · have hs := ih _ _ hrest r hr
      exact ⟨hs.paired, fun k hk => hs.width k (by rw [hk]; rfl), hs.experts, hs.finite⟩

/-- A batch without a fault has as many rows of either kind, and only sound ones. -/
theorem fault_none {shape : Option Shape} {b : Batch} (h : b.fault? shape = none) :
    b.experts.length = b.weights.length ∧ ∀ r ∈ b.rows, RowSound shape (shape.map (·.topK.toNat)) r := by
  unfold fault? at h
  by_cases hl : b.experts.length = b.weights.length
  · rw [if_neg (not_not_intro hl)] at h
    exact ⟨hl, rowsFault_none _ _ _ h⟩
  · rw [if_pos hl] at h
    cases h

theorem weights_isFinite {shape : Option Shape} {b : Batch} (h : b.fault? shape = none) :
    ∀ row ∈ b.weights, ∀ w ∈ row, w.isFinite = true := by
  obtain ⟨hlength, hsound⟩ := fault_none h
  rw [show b.weights = b.rows.map Prod.snd from (List.map_snd_zip (Nat.le_of_eq hlength.symm)).symm,
    List.forall_mem_map]
  exact fun row hrow => (hsound row hrow).finite

theorem rowFault_of_sound {shape : Option Shape} {width : Nat} {r : List UInt32 × List Real64}
    (h : RowSound shape (some width) r) (row : Nat) : rowFault? shape width row r.1 r.2 = none := by
  have hexperts : (shape.bind fun s => (r.1.find? fun e => s.numExperts.toNat ≤ e.toNat).map (·, s)) = none := by
    cases shape with
    | none => rfl
    | some s =>
      rw [Option.bind_some, Option.map_eq_none_iff, List.find?_eq_none]
      intro e he
      simpa using h.experts s rfl e he
  have hfinite : (r.2.findIdx? fun w => !w.isFinite) = none := by
    refine List.findIdx?_eq_none_iff.mpr fun w hw => ?_
    rw [h.finite w hw]
    rfl
  rw [rowFault?, if_neg (not_not_intro h.paired), if_neg (not_not_intro (h.width width rfl)), hexperts, hfinite]
  rfl

theorem fault_of_sound {s : Shape} {b : Batch} (hlength : b.experts.length = b.weights.length)
    (h : ∀ r ∈ b.rows, RowSound (some s) (some s.topK.toNat) r) : b.fault? (some s) = none := by
  have hrows : ∀ (rows : List (List UInt32 × List Real64)) (row : Nat),
      (∀ r ∈ rows, RowSound (some s) (some s.topK.toNat) r) →
      rowsFault? (some s) (some s.topK.toNat) row rows = none := by
    intro rows
    induction rows with
    | nil => intro _ _; rfl
    | cons r rows ih =>
      intro row h
      rw [rowsFault?, Option.getD_some, rowFault_of_sound (h r List.mem_cons_self), Option.none_or]
      exact ih _ fun r' hr' => h r' (List.mem_cons_of_mem _ hr')
  rw [fault?, if_neg (not_not_intro hlength)]
  exact hrows _ _ h

theorem routes_row {b : Batch} {requestId : String} {layer : UInt64} {first : Nat} :
    ∀ r ∈ b.routes requestId layer first,
      r.layer = layer ∧ ∃ row ∈ b.rows, r.experts = row.1 ∧ r.weights = row.2.map roundWeight := by
  intro r hr
  obtain ⟨⟨row, k⟩, hmem, rfl⟩ := List.mem_map.mp hr
  exact ⟨rfl, row, List.fst_mem_of_mem_zipIdx hmem, rfl, rfl⟩

theorem routes_weights {b : Batch} (h : b.experts.length = b.weights.length) (requestId : String) (layer : UInt64)
    (first : Nat) : (b.routes requestId layer first).map (·.weights) = b.weights.map (·.map roundWeight) := by
  have hweights : b.rows.map Prod.snd = b.weights := List.map_snd_zip (Nat.le_of_eq h.symm)
  calc (b.routes requestId layer first).map (·.weights)
      = (b.rows.zipIdx.map Prod.fst).map fun row => row.2.map roundWeight := by
        rw [routes, List.map_map, List.map_map]
        rfl
    _ = (b.rows.map Prod.snd).map (·.map roundWeight) := by
        rw [List.zipIdx_map_fst, List.map_map]
        rfl
    _ = b.weights.map (·.map roundWeight) := by rw [hweights]

/-- Each route of a sound batch fits a header of its shape that logs its layer. -/
theorem routes_fit {b : Batch} {s : Shape} (h : b.fault? (some s) = none) {header : Header}
    (hk : header.topK = s.topK) (hn : header.numExperts = s.numExperts) {layer : UInt64}
    (hl : layer ∈ header.layersLogged) {requestId : String} {first : Nat} :
    ∀ r ∈ b.routes requestId layer first, Trace.misfit? header r = none := by
  intro r hr
  obtain ⟨rfl, row, hrow, hexperts, hweights⟩ := routes_row r hr
  have hs := (fault_none h).2 row hrow
  refine Trace.misfit?_eq_none_iff.mpr ⟨?_, ?_, ?_, hl⟩
  · rw [hexperts, hweights, List.length_map, hs.paired]
  · rw [hexperts, hk, hs.width _ rfl]
  · rw [hexperts, hn]
    exact hs.experts s rfl

end Batch

end ExpertRouting
