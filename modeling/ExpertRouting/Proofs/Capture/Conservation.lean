/-
  ExpertRouting.Proofs.Capture.Conservation — what was written is what the report counts.

  A trace keeps the experts of the written rows, so its histogram counts those, all of the
  width of the header. Requests are told apart by the ids of their routes. A call that was
  written with rows gives its routes one id, the supplied one or the next to be minted
  (`requestIds_call`); so the ids of a run are the supplied ones and as many minted ones as
  calls came without (`requestIds_run`), and none is both where no supplied id has the minted
  form. The report on a run therefore counts what the calls reported, and nothing else
  (`counts_are_conserved`).
-/

import Mathlib.Data.Finset.Card
import ExpertRouting.Proofs.Capture.Attribution
import ExpertRouting.Proofs.Capture.Headers
import ExpertRouting.Proofs.Capture.Recording
import ExpertRouting.Proofs.Report.Counts

namespace ExpertRouting

/-- The calls that were written and had rows, by the replies to them. -/
def recordedCalls (calls : List Call) (replies : List Reply) : List Call :=
  ((calls.zip replies).filter fun answered => answered.2.accepted && !answered.1.rows.isEmpty).map Prod.fst

namespace Capture

/-! ## Requests -/

/-- The one id of the routes that a call writes: the supplied one, or the next to be minted. -/
theorem requestIds_call (c : Capture) (k : Call) :
    ((Entry.mk c k).routes.map (·.requestId)).toFinset =
      if (c.call k).1.accepted && !k.rows.isEmpty then {k.supplied?.getD (mintedId c.minted)} else ∅ := by
  have hlength := (entry_keeps c k).length_eq
  have hids : (Entry.mk c k).routes.map (·.requestId) =
      List.replicate (Entry.mk c k).routes.length (k.supplied?.getD (mintedId c.minted)) := by
    refine List.map_eq_replicate_iff.mpr fun r hr => ?_
    rcases routes_attributed hr with ⟨-, hnone, hminted⟩ | hsupplied
    · rw [show k.supplied? = none from hnone, hminted, Option.getD_none]
    · rw [show k.supplied? = some r.requestId from hsupplied, Option.getD_some]
  rw [hids, ← hlength]
  by_cases ha : (c.call k).1.accepted = true
  · by_cases hrows : k.rows = []
    · simp [hrows]
    · rw [if_pos ha, List.toFinset_replicate_of_ne_zero (by simpa using hrows), if_pos (by simp [ha, hrows])]
  · simp [ha]

theorem recorded_mints {c : Capture} {k : Call} (h : ((c.call k).1.accepted && !k.rows.isEmpty) = true)
    (hid : k.supplied? = none) : (c.call k).2.minted = c.minted + 1 := by
  have hids := requestIds_call c k
  rw [if_pos h] at hids
  obtain ⟨r, hr, -⟩ : ∃ r ∈ (Entry.mk c k).routes, r.requestId = k.supplied?.getD (mintedId c.minted) := by
    have hmem := Finset.mem_singleton_self (k.supplied?.getD (mintedId c.minted))
    rw [← hids, List.mem_toFinset] at hmem
    exact List.mem_map.mp hmem
  rcases routes_attributed hr with ⟨hm, -⟩ | hsupplied
  · rw [call_minted, show c.mints k = true from hm, if_pos rfl]
  · rw [show k.supplied? = _ from hsupplied] at hid
    cases hid

theorem recordedCalls_cons (k : Call) (calls : List Call) (reply : Reply) (replies : List Reply) :
    recordedCalls (k :: calls) (reply :: replies) =
      if reply.accepted && !k.rows.isEmpty then k :: recordedCalls calls replies else recordedCalls calls replies := by
  rw [recordedCalls, List.zip_cons_cons, List.filter_cons]
  split <;> rfl

theorem mem_of_recordedCalls {k : Call} {calls : List Call} {replies : List Reply} (h : k ∈ recordedCalls calls replies) :
    k ∈ calls := by
  obtain ⟨⟨k', reply⟩, hmem, rfl⟩ := List.mem_map.mp h
  exact (List.of_mem_zip (List.mem_filter.mp hmem).1).1

/-- The ids of a run are those supplied with a row and one for each call that came with rows but
    without an id, none of which had been minted before; the induction is on the calls. -/
theorem requestIds_run (c : Capture) (calls : List Call) :
    ∃ minted : Finset Nat, (∀ n ∈ minted, c.minted ≤ n) ∧
      minted.card = (recordedCalls calls (c.run calls).1).countP (·.supplied?.isNone) ∧
      ((c.runRoutes calls).map (·.requestId)).toFinset =
        minted.image mintedId ∪ ((recordedCalls calls (c.run calls).1).filterMap Call.supplied?).toFinset := by
  induction calls generalizing c with
  | nil => exact ⟨∅, by simp, rfl, rfl⟩
  | cons k calls ih =>
    obtain ⟨minted, hfresh, hcard, hids⟩ := ih (c.call k).2
    have hle : c.minted ≤ (c.call k).2.minted := by
      rw [call_minted]
      exact Nat.le_add_right _ _
    rw [runRoutes_cons, List.map_append, List.toFinset_append, requestIds_call, hids, run_cons, recordedCalls_cons]
    by_cases hrecorded : ((c.call k).1.accepted && !k.rows.isEmpty) = true
    case neg =>
      rw [if_neg hrecorded, if_neg hrecorded, Finset.empty_union]
      exact ⟨minted, fun n hn => hle.trans (hfresh n hn), hcard, rfl⟩
    rw [if_pos hrecorded, if_pos hrecorded]
    cases hid : k.supplied? with
    | none =>
      have hnext := recorded_mints hrecorded hid
      have hnew : c.minted ∉ minted := fun hmem => absurd (hfresh _ hmem) (by omega)
      refine ⟨insert c.minted minted, ?_, ?_, ?_⟩
      · intro n hn
        rcases Finset.mem_insert.mp hn with rfl | hn
        · exact Nat.le_refl _
        · exact hle.trans (hfresh n hn)
      · rw [Finset.card_insert_of_notMem hnew, hcard, List.countP_cons_of_pos (by rw [hid]; rfl)]
      · rw [List.filterMap_cons_none hid, Finset.image_insert, Option.getD_none, Finset.insert_union, Finset.insert_eq]
    | some id =>
      refine ⟨minted, fun n hn => hle.trans (hfresh n hn), ?_, ?_⟩
      · rw [hcard, List.countP_cons_of_neg (by rw [hid]; simp)]
      · rw [List.filterMap_cons_some hid, List.toFinset_cons, Option.getD_some, Finset.union_insert, Finset.insert_eq]

/-- The different ids of a run whose supplied ids do not have the minted form. -/
theorem card_requestIds {calls : List Call} (hnone : NoneMinted calls) (c : Capture) :
    ((c.runRoutes calls).map (·.requestId)).toFinset.card =
      (recordedCalls calls (c.run calls).1).countP (·.supplied?.isNone) +
        ((recordedCalls calls (c.run calls).1).filterMap Call.supplied?).toFinset.card := by
  obtain ⟨minted, -, hcard, hids⟩ := requestIds_run c calls
  have hdisjoint : Disjoint (minted.image mintedId)
      ((recordedCalls calls (c.run calls).1).filterMap Call.supplied?).toFinset := by
    rw [Finset.disjoint_left]
    intro id hminted hsupplied
    obtain ⟨n, -, rfl⟩ := Finset.mem_image.mp hminted
    obtain ⟨k, hk, hid⟩ := List.mem_filterMap.mp (List.mem_toFinset.mp hsupplied)
    exact hnone k (mem_of_recordedCalls hk) _ hid n rfl
  rw [hids, Finset.card_union_of_disjoint hdisjoint, Finset.card_image_of_injective _ mintedId_injective, hcard]

/-! ## From the sink to the report -/

/-- A run that begins with a header and ends with the close of the sink, on a stream that
    never fails, with batches, tensors and ends of requests in between; the weights of the
    written rows are finite once rounded, and no supplied id has the minted form. What the
    stream then holds is parsed, and the report on it counts what was reported: for every
    expert the times it stands in the written rows, `topK` choices for each token, as many
    tokens as records after the header, and as many requests as calls without an id and
    different ids among the calls that were written with rows. -/
theorem counts_are_conserved {stream : Stream} (hs : stream.NeverFails) (hempty : stream.bytes = []) (layer : UInt64)
    {s : Session} (hshape : s.shape.sound = true) {calls : List Call} (hcalls : ∀ k ∈ calls, k.records = true)
    (hfinite : ∀ row ∈ writtenRows calls ((begun stream layer s).run calls).1,
      ∀ w ∈ row.weights, (roundWeight w).isFinite = true)
    (hnone : NoneMinted calls) :
    ∃ replies t, ((onto stream layer).run (.header s :: calls ++ [.close])).1 =
        .status (.written 1) :: replies ++ [.closed] ∧
      Trace.parse ((onto stream layer).run (.header s :: calls ++ [.close])).2.bytes = .ok t ∧
      (∀ e, (Report.ofTrace t).counts[e]?.getD 0 =
        (((writtenRows calls replies).flatMap (·.experts)).map UInt32.toNat).count e) ∧
      (Report.ofTrace t).metrics.total = s.shape.topK.toNat * (Report.ofTrace t).tokens ∧
      (Report.ofTrace t).tokens = (replies.map Reply.count).sum ∧
      (Report.ofTrace t).requests = (recordedCalls calls replies).countP (·.supplied?.isNone) +
        ((recordedCalls calls replies).filterMap Call.supplied?).toFinset.card := by
  obtain ⟨-, hlogging, -⟩ := begun_logging hs layer hshape
  obtain ⟨hreplies, hbytes⟩ := session_run hs layer hshape hcalls
  obtain ⟨-, hkeeps, hcount⟩ := logging_routes hcalls hlogging
  obtain ⟨routes, hparse, hresembles⟩ := Trace.parse_written (s.header layer) (weights_of_kept hkeeps.rows hfinite)
  have hverify := Trace.verify_resembling hresembles hkeeps.fit
  have hexperts : routes.map (·.experts) =
      (writtenRows calls ((begun stream layer s).run calls).1).map (·.experts) :=
    (map_eq_of_forall₂ (·.experts) (·.experts) (fun _ _ hr => hr.experts) hresembles).trans
      (map_eq_of_forall₂ _ _ (fun _ _ hr => hr.experts) hkeeps.rows)
  refine ⟨((begun stream layer s).run calls).1, ⟨s.header layer, routes⟩, hreplies, ?_, fun e => ?_,
    Report.total_ofTrace hverify, ?_, ?_⟩
  · rw [hbytes, hempty, List.nil_append, hparse]
  · show (Histogram.build routes).counts[e]?.getD 0 = _
    rw [Histogram.build, Histogram.count_ofExperts, List.flatMap_def, List.flatMap_def, hexperts]
  · show routes.length = _
    rw [← hresembles.length_eq, hcount]
  · show Trace.requestCount ⟨s.header layer, routes⟩ = _
    rw [Trace.requestCount_eq, map_eq_of_forall₂ (·.requestId) _ (fun _ _ hr => hr.requestId) hresembles,
      card_requestIds hnone]

/-- A batch of one request, an empty one, one of another layer, two without an id, one of them with
    an expert that does not exist, and tensors of the first request after its end, on a stream that
    takes few bytes at a time: three tokens of two requests. -/
theorem a_run_of_two_requests_is_counted :
    let stream : Stream := { writes := [.short 3, .interrupted, .short 40] }
    let session : Session := { modelId := "m", shape := ⟨2, 4⟩, device := "cpu" }
    let half := Binary.ofDecimal binary64 false 5 (-1)
    let row (experts : List UInt32) : Batch := ⟨[experts], [[half, half]]⟩
    let ids : Tensor := ⟨[1, 2], .u32 [1, 3], rfl⟩
    let weights : Tensor := ⟨[1, 2], .real binary16 [Binary.ofNat binary16 1, Binary.ofNat binary16 0], rfl⟩
    let calls : List Call :=
      [.batch 0 (row [2, 1]) (some "a"), .batch 0 ⟨[], []⟩ none, .batch 1 (row [2, 1]) none, .batch 0 (row [0, 1]) none,
        .batch 0 (row [0, 7]) none, .finish "a", .tensors 0 ids weights (some "a")]
    ∃ t, Trace.parse ((onto stream 0).run (.header session :: calls ++ [.close])).2.bytes = .ok t ∧
      (∀ e, (Report.ofTrace t).counts[e]?.getD 0 = [2, 1, 0, 1, 1, 3].count e) ∧
      (Report.ofTrace t).metrics.total = 6 ∧ (Report.ofTrace t).tokens = 3 ∧ (Report.ofTrace t).requests = 2 := by
  intro stream session half row ids weights calls
  have hs : stream.NeverFails := ⟨by simp [stream, WriteReply.Accepting], by simp [stream]⟩
  have hnone : NoneMinted calls := noneMinted_of_head (by decide)
  have hfinite : ∀ row ∈ writtenRows calls ((begun stream 0 session).run calls).1,
      ∀ w ∈ row.weights, (roundWeight w).isFinite = true := by
    decide +kernel
  obtain ⟨replies, t, hreplies, hparse, hcounts, htotal, htokens, hrequests⟩ :=
    counts_are_conserved hs rfl 0 (by decide) (by decide) hfinite hnone
  let answers : List Reply := [.status (.written 1), .status (.written 0), .status .filtered, .status (.written 1),
    .status (.degraded (.expertOutOfRange 0 7 4)), .finished, .status (.written 1)]
  have hrun : ((onto stream 0).run (.header session :: calls ++ [.close])).1 =
      .status (.written 1) :: answers ++ [.closed] := by
    decide +kernel
  obtain rfl : replies = answers := List.append_cancel_right (List.cons.inj (hreplies.symm.trans hrun)).2
  have hthree : (Report.ofTrace t).tokens = 3 := htokens
  refine ⟨t, hparse, fun e => ?_, ?_, hthree, ?_⟩
  · rw [hcounts]
    congr 1
  · rw [htotal, hthree]
    rfl
  · rw [hrequests]
    decide +kernel

end Capture

end ExpertRouting
