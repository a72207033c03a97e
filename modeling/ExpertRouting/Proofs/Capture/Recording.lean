/-
  ExpertRouting.Proofs.Capture.Recording — recording on a stream that never fails.

  There a call that records is taken and written, with all its routes, or it is turned away
  and leaves nothing (`recording_cases`), so the stream after some of them holds the lines of
  their routes (`recording_bytes`). After its header an open sink stays open and keeps its
  shape (`Recording`), and batches without a fault and without an id are all written, each
  with the next minted id and its tokens counted from zero (`Recording.runRoutes`).
-/

import ExpertRouting.Proofs.Capture.Lossless
import ExpertRouting.Proofs.Capture.TokenCount

namespace ExpertRouting.Capture

theorem setOffset_self (offsets : String → Nat) (id : String) : setOffset offsets id (offsets id) = offsets := by
  funext other
  unfold setOffset
  split
  · rename_i h; rw [h]
  · rfl

theorem counted_zero (c : Capture) (sub : Submission) : c.counted sub 0 c.writer = c.claimed sub.requestId := by
  unfold counted
  cases h : sub.requestId with
  | none => rfl
  | some id => simp [claimed, setOffset_self]

theorem Takes.written {c : Capture} {k : Call} {sub : Submission} (h : c.Takes k sub)
    (hs : c.writer.stream.NeverFails) :
    ∃ w, w.stream.NeverFails ∧ c.call k =
      (.status (.written sub.batch.experts.length), c.counted sub sub.batch.experts.length w) := by
  rw [h.call_eq, writeRoutes_eq]
  by_cases hb : sub.batch.experts = []
  · refine ⟨c.writer, hs, ?_⟩
    rw [if_pos (by simpa using hb), hb, List.length_nil, counted_zero]
  · obtain ⟨hok, hstream⟩ := Writer.writeBatch_neverFails hs ((c.routesOf sub).map .route)
    rw [List.length_map, routesOf_length h] at hok
    rcases hw : c.writer.writeBatch ((c.routesOf sub).map .route) with ⟨result, w⟩
    rw [hw] at hok hstream
    cases hok
    refine ⟨w, hstream, ?_⟩
    rw [if_neg (by simpa using hb)]

theorem Takes.routes {c : Capture} {k : Call} {sub : Submission} (h : c.Takes k sub)
    (hs : c.writer.stream.NeverFails) : (Entry.mk c k).routes = c.routesOf sub := by
  obtain ⟨w, -, hcall⟩ := h.written hs
  have hreply : (Entry.mk c k).reply = .status (.written sub.batch.experts.length) := by rw [Entry.reply, hcall]
  have hwritten : (Entry.mk c k).written = (c.routesOf sub).map .route := by
    rw [Entry.written, hreply]
    exact h.recordsOf
  exact Entry.routes_eq hwritten

/-- A recording call is taken and written, or turned away, or ends a request. -/
theorem recording_cases {c : Capture} (hs : c.writer.stream.NeverFails) {k : Call} (hk : k.records = true) :
    (∃ sub w, c.Takes k sub ∧ w.stream.NeverFails ∧
      c.call k = (.status (.written sub.batch.experts.length), c.counted sub sub.batch.experts.length w)) ∨
    ((∀ sub, ¬ c.Takes k sub) ∧ (c.call k).1.accepted = false ∧
      ((c.call k).2 = c ∨ ∃ id, k = .finish id ∧ (c.call k).2 = c.finishRequest id)) := by
  by_cases ht : ∃ sub, c.Takes k sub
  · obtain ⟨sub, ht⟩ := ht
    obtain ⟨w, hw, hcall⟩ := ht.written hs
    exact Or.inl ⟨sub, w, ht, hw, hcall⟩
  have hnot : ∀ sub, ¬ c.Takes k sub := fun sub h => ht ⟨sub, h⟩
  refine Or.inr ⟨hnot, ?_⟩
  have he := call_effect c k
  generalize (c.call k).1 = reply at he ⊢
  generalize (c.call k).2 = after at he ⊢
  cases he with
  | refused _ s hs =>
    rw [Status.accepted_of_refusal hs]
    exact ⟨rfl, Or.inl rfl⟩
  | header s w he ha hs hw => cases hk
  | headerLost s w e he ha hs hw => cases hk
  | empty _ sub h hb => exact absurd h (hnot sub)
  | batch _ sub w h hb hw => exact absurd h (hnot sub)
  | batchLost _ sub w e h hb hw => exact absurd h (hnot sub)
  | finished id => exact ⟨rfl, Or.inr ⟨id, rfl, rfl⟩⟩
  | closed => cases hk

theorem routes_of_not_accepted {c : Capture} {k : Call} (h : (c.call k).1.accepted = false) :
    (Entry.mk c k).routes = [] := by
  have hreply : (Entry.mk c k).reply.accepted = false := h
  rw [Entry.routes, Entry.written, hreply]
  rfl

theorem recording_written {c : Capture} {k : Call} (hk : k.records = true) :
    (Entry.mk c k).written = (Entry.mk c k).routes.map .route := by
  unfold Entry.routes Entry.written
  split
  · have hrecords : ∃ routes : List Route, c.recordsOf k = routes.map .route := by
      cases k with
      | header s => cases hk
      | close => cases hk
      | finish id => exact ⟨[], rfl⟩
      | batch layer b requestId => exact ⟨_, rfl⟩
      | tensors layer ids weights requestId =>
        simp only [recordsOf]
        split
        · exact ⟨_, rfl⟩
        · exact ⟨[], rfl⟩
    obtain ⟨routes, hr⟩ := hrecords
    rw [hr, Trace.filterMap_route]
  · rfl

/-- The stream after some recording calls: the lines of their routes, in order. -/
theorem recording_bytes {c : Capture} (hs : c.writer.stream.NeverFails) {calls : List Call}
    (hcalls : ∀ k ∈ calls, k.records = true) :
    (c.run calls).2.bytes = c.bytes ++ Writer.lines ((c.runRoutes calls).map .route) := by
  have hrecords : c.runRecords calls = (c.runRoutes calls).map .route := by
    clear hs
    induction calls generalizing c with
    | nil => rfl
    | cons k rest ih =>
      have hfirst := recording_written (c := c) (hcalls k List.mem_cons_self)
      have hrest := ih (c := (c.call k).2) fun k' hk' => hcalls k' (List.mem_cons_of_mem _ hk')
      rw [runRoutes_cons, List.map_append, ← hfirst, ← hrest]
      rfl
  rw [run_bytes_neverFails hs, hrecords]

/-! ## Batches without an id -/

/-- An open sink that has written its header, on a stream that never fails. -/
structure Recording (layer : UInt64) (s : Session) (c : Capture) : Prop extends Logging layer s c where
  enabled : c.enabled = true
  attached : c.attached = true

theorem header_keeps (c : Capture) (s : Session) :
    (c.call (.header s)).2.enabled = c.enabled ∧ (c.call (.header s)).2.attached = c.attached ∧
      (c.call (.header s)).2.minted = c.minted := by
  have he := call_effect c (.header s)
  generalize (c.call (.header s)).1 = reply at he
  generalize (c.call (.header s)).2 = after at he ⊢
  cases he with
  | refused _ st hs => exact ⟨rfl, rfl, rfl⟩
  | header st w henabled ha hs hw => exact ⟨rfl, rfl, rfl⟩
  | headerLost st w e henabled ha hs hw => exact ⟨rfl, rfl, rfl⟩
  | empty _ sub ht hb => cases ht.submits
  | batch _ sub w ht hb hw => cases ht.submits
  | batchLost _ sub w e ht hb hw => cases ht.submits

theorem begun_recording {stream : Stream} (hs : stream.NeverFails) (layer : UInt64) {s : Session}
    (hshape : s.shape.sound = true) :
    Recording layer s (begun stream layer s) ∧ (begun stream layer s).minted = 0 := by
  obtain ⟨-, hlogging, -⟩ := begun_logging hs layer hshape
  obtain ⟨henabled, hattached, hminted⟩ := header_keeps (onto stream layer) s
  exact ⟨⟨hlogging, henabled, hattached⟩, hminted⟩

/-- A batch without a fault and without an id is written under the next minted id. -/
theorem Recording.batch {layer : UInt64} {s : Session} {c : Capture} (h : Recording layer s c) {b : Batch}
    (hb : b.fault? (some s.shape) = none) :
    (Entry.mk c (.batch layer b none)).routes = b.routes (mintedId c.minted) layer 0 ∧
      Recording layer s (c.call (.batch layer b none)).2 ∧
      (c.call (.batch layer b none)).2.minted = c.minted + 1 := by
  have ht : c.Takes (.batch layer b none) ⟨layer, b, none⟩ := by
    refine ⟨rfl, h.enabled, h.attached, h.layer.symm, ?_⟩
    rw [h.shape]
    exact hb
  obtain ⟨w, hw, hcall⟩ := ht.written h.stream
  refine ⟨?_, ?_, ?_⟩
  · rw [ht.routes h.stream, routesOf, origin_none, h.layer]
  · rw [hcall]
    exact ⟨⟨h.layer, h.shape, hw⟩, h.enabled, h.attached⟩
  · rw [hcall]
    rfl

/-- Batches without a fault and without an id are written in order, each under the next id. -/
theorem Recording.runRoutes {layer : UInt64} {s : Session} {batches : List Batch}
    (hbatches : ∀ b ∈ batches, b.fault? (some s.shape) = none) {c : Capture} (h : Recording layer s c) :
    c.runRoutes (batches.map fun b => .batch layer b none) =
      (batches.zipIdx c.minted).flatMap fun part => part.1.routes (mintedId part.2) layer 0 := by
  induction batches generalizing c with
  | nil => rfl
  | cons b batches ih =>
    obtain ⟨hroutes, hnext, hminted⟩ := h.batch (hbatches b List.mem_cons_self)
    have hrest := ih (fun b' hb' => hbatches b' (List.mem_cons_of_mem _ hb')) hnext
    rw [List.map_cons, runRoutes_cons, hroutes, hrest, hminted, List.zipIdx_cons, List.flatMap_cons]

end ExpertRouting.Capture
