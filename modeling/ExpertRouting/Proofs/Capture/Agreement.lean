/-
  ExpertRouting.Proofs.Capture.Agreement — the sink and the verification judge alike.

  Rows are judged twice: before they are written, against the shape of the header, and in
  the trace that is read back, against the header itself. Both walk the rows in order and
  stop at the first fault, and on one row they ask the same questions in the same order;
  only the sink asks for finite weights, and only the verification for the layer. So of
  rows with finite weights, at the logged layer, both take the same ones, and what they
  turn away they turn away for the same row and the same cause
  (`validation_agrees_with_verification`).
-/

import Mathlib.Data.List.Forall2
import ExpertRouting.Proofs.Capture.Batch

namespace ExpertRouting

/-- A route of a row: its experts, as many weights, and the layer. Its request, its number
    and the rounding of its weights are left open. -/
structure Route.IsOf (layer : UInt64) (row : List UInt32 × List Real64) (r : Route) : Prop where
  experts : r.experts = row.1
  weights : r.weights.length = row.2.length
  layer : r.layer = layer

/-- The sink and the verification name one cause, and the sink's row is the index of the route. -/
inductive SameCause : CaptureError → Nat → Trace.Misfit → Prop
  | weightCount (index experts weights : Nat) :
      SameCause (.rowWidth index experts weights) index (.weightCount experts weights)
  | width (index width : Nat) (topK : UInt64) : SameCause (.topK index width topK.toNat) index (.width width topK)
  | expert (index : Nat) (e : UInt32) (numExperts : UInt64) :
      SameCause (.expertOutOfRange index e.toNat numExperts.toNat) index (.expert e numExperts)

theorem Batch.routes_isOf (b : Batch) (requestId : String) (layer : UInt64) (first : Nat) :
    List.Forall₂ (Route.IsOf layer) b.rows (b.routes requestId layer first) := by
  unfold routes
  generalize b.rows = rows
  generalize 0 = k
  induction rows generalizing k with
  | nil => exact .nil
  | cons row rows ih => exact .cons ⟨rfl, List.length_map _, rfl⟩ (ih (k + 1))

theorem rowFault_agrees (s : Session) {layer : UInt64} {row : List UInt32 × List Real64} {r : Route}
    (hr : r.IsOf layer row) (hfinite : ∀ w ∈ row.2, w.isFinite = true) (index : Nat) :
    Option.Rel (fun e m => SameCause e index m)
      (Batch.rowFault? (some s.shape) s.shape.topK.toNat index row.1 row.2) (Trace.misfit? (s.header layer) r) := by
  obtain ⟨experts, weights⟩ := row
  obtain ⟨hexperts, hweights, hlayer⟩ := hr
  have htopK : (s.header layer).topK = s.shape.topK := rfl
  have hnum : (s.header layer).numExperts = s.shape.numExperts := rfl
  have hlogged : (s.header layer).layersLogged.contains r.layer = true := by simp [Session.header, hlayer]
  simp only at hexperts hweights hfinite
  unfold Batch.rowFault? Trace.misfit? Route.width
  rw [hexperts, hweights, htopK, hnum, hlogged]
  by_cases hpaired : experts.length = weights.length
  case neg => rw [if_pos hpaired, if_pos hpaired]; exact .some (.weightCount index _ _)
  rw [if_neg (not_not_intro hpaired), if_neg (not_not_intro hpaired)]
  by_cases hwidth : experts.length = s.shape.topK.toNat
  case neg => rw [if_pos hwidth, if_pos hwidth]; exact .some (.width index _ _)
  rw [if_neg (not_not_intro hwidth), if_neg (not_not_intro hwidth), Option.bind_some]
  cases hfind : experts.find? fun e => s.shape.numExperts.toNat ≤ e.toNat with
  | some e => exact .some (.expert index e s.shape.numExperts)
  | none =>
    have hnone : (weights.findIdx? fun w => !w.isFinite) = none := by
      refine List.findIdx?_eq_none_iff.mpr fun w hw => ?_
      rw [hfinite w hw]
      rfl
    rw [hnone]
    exact .none

/-- Rows that are judged from `index` on, once a width is in force. -/
theorem rowsFault_agrees (s : Session) {layer : UInt64} {rows : List (List UInt32 × List Real64)} {routes : List Route}
    (hroutes : List.Forall₂ (Route.IsOf layer) rows routes) (hfinite : ∀ row ∈ rows, ∀ w ∈ row.2, w.isFinite = true)
    (index : Nat) :
    Option.Rel (fun e found => SameCause e found.1 found.2)
      (Batch.rowsFault? (some s.shape) (some s.shape.topK.toNat) index rows)
      (Trace.firstMisfit? (s.header layer) index routes) := by
  induction hroutes generalizing index with
  | nil => exact .none
  | @cons row r rows routes hr _ ih =>
    have hfirst := rowFault_agrees s hr (hfinite row List.mem_cons_self) index
    have hrest := ih (fun row' h => hfinite row' (List.mem_cons_of_mem _ h)) (index + 1)
    rw [Batch.rowsFault?, Trace.firstMisfit?, Option.getD_some]
    generalize Batch.rowFault? (some s.shape) s.shape.topK.toNat index row.1 row.2 = fault at hfirst ⊢
    generalize Trace.misfit? (s.header layer) r = misfit at hfirst ⊢
    -- the first row decides if both name a fault there, and otherwise neither does
    cases hfirst with
    | some h => exact .some h
    | none => exact hrest

/-- A header of any shape and one logged layer, a batch with as many rows of ids as of
    weights and only finite weights, and routes of its rows at that layer. The batch is
    sound for the shape exactly when the trace of the header and the routes is verified;
    and when it is not, the verification fails too, at the route of the same row, with the
    same numbers in the cause, and for an expert out of range with the same expert. -/
theorem validation_agrees_with_verification (s : Session) (layer : UInt64) {b : Batch} {routes : List Route}
    (hrows : b.experts.length = b.weights.length) (hfinite : ∀ row ∈ b.weights, ∀ w ∈ row, w.isFinite = true)
    (hroutes : List.Forall₂ (Route.IsOf layer) b.rows routes) :
    (b.fault? (some s.shape) = none ↔ Trace.verify ⟨s.header layer, routes⟩ = .ok ()) ∧
      ∀ e, b.fault? (some s.shape) = some e → ∃ index m,
        Trace.verify ⟨s.header layer, routes⟩ = .error (.inconsistent index m) ∧ SameCause e index m := by
  have hagree := rowsFault_agrees s hroutes
    (fun row hrow => hfinite row.2 (List.of_mem_zip hrow).2) 0
  unfold Batch.fault? Trace.verify
  rw [if_neg (not_not_intro hrows), Option.map_some]
  generalize Batch.rowsFault? (some s.shape) (some s.shape.topK.toNat) 0 b.rows = fault at hagree ⊢
  generalize Trace.firstMisfit? (s.header layer) 0 routes = misfit at hagree ⊢
  cases hagree with
  | none => exact ⟨iff_of_true rfl rfl, fun e he => by cases he⟩
  | @some e found h =>
    refine ⟨iff_of_false (Option.some_ne_none e) (fun hok => by cases hok), ?_⟩
    rintro e' ⟨⟩
    exact ⟨found.1, found.2, rfl, h⟩

/-- Three rows of which the second has the wrong width and an expert out of range, the third
    only the latter. -/
theorem a_batch_with_two_faults_is_judged_alike :
    let s : Session := { modelId := "m", shape := ⟨2, 4⟩, device := "cpu" }
    let one := Binary.ofNat binary64 1
    let b : Batch := ⟨[[2, 0], [9], [1, 4]], [[one, one], [one], [one, one]]⟩
    (b.fault? (some s.shape) = none ↔ Trace.verify ⟨s.header 7, b.routes "a" 7 3⟩ = .ok ()) ∧
      (∀ e, b.fault? (some s.shape) = some e → ∃ index m,
        Trace.verify ⟨s.header 7, b.routes "a" 7 3⟩ = .error (.inconsistent index m) ∧ SameCause e index m) ∧
      b.fault? (some s.shape) = some (.topK 1 1 2) := by
  intro s one b
  have h := validation_agrees_with_verification s 7 (b := b) (by decide +kernel) (by decide +kernel) (b.routes_isOf "a" 7 3)
  exact ⟨h.1, h.2, by decide +kernel⟩

end ExpertRouting
