/-
  ExpertRouting.Proofs.Capture.Journal — the record of a run.

  A run is told entry by entry: a call and the sink it was made on. What an entry leaves in
  the stream is all its lines if it is written, a prefix of them if the stream failed, and
  nothing otherwise (`call_bytes`); so the stream after a run is the stream before it and
  what each entry left, in order (`run_bytes`). A stream that never fails loses no call and
  stays one that never fails (`call_neverFails`), so there an entry leaves the lines of its
  written records and nothing else, and a run the lines of all of them
  (`run_bytes_neverFails`).
-/

import ExpertRouting.Proofs.Capture.Effect

namespace ExpertRouting

def Reply.accepted : Reply → Bool
  | .status (.written _) => true
  | _ => false

def Reply.count : Reply → Nat
  | .status (.written n) => n
  | _ => 0

def Reply.lost : Reply → Bool
  | .status (.degraded e) => e.fromStream
  | _ => false

namespace Status

variable {s : Status}

theorem accepted_of_refusal (h : s.refusal = true) : (Reply.status s).accepted = false := by
  cases s with
  | written n => cases h
  | _ => rfl

theorem count_of_refusal (h : s.refusal = true) : (Reply.status s).count = 0 := by
  cases s with
  | written n => cases h
  | _ => rfl

theorem lost_of_refusal (h : s.refusal = true) : (Reply.status s).lost = false := by
  cases s with
  | degraded e => simpa [refusal, Reply.lost] using h
  | _ => rfl

end Status

namespace Capture

/-- A call, and the sink it was made on. -/
structure Entry where
  before : Capture
  call : Call

def bytes (c : Capture) : List UInt8 := c.writer.stream.bytes

/-- The records that a call hands to the writer when it comes so far. -/
def recordsOf (c : Capture) : Call → List Record
  | .header s => [.header (s.header c.layer)]
  | k => match k.submission? with
    | some sub => (c.routesOf sub).map .route
    | none => []

def journal (c : Capture) : List Call → List Entry
  | [] => []
  | k :: rest => ⟨c, k⟩ :: (c.call k).2.journal rest

namespace Entry

def reply (e : Entry) : Reply := (e.before.call e.call).1

def after (e : Entry) : Capture := (e.before.call e.call).2

def written (e : Entry) : List Record := if e.reply.accepted then e.before.recordsOf e.call else []

/-- The bytes that an entry leaves in the stream. -/
def left (e : Entry) : List UInt8 :=
  if e.reply.lost then (offer e.before.writer.stream.writes (Writer.lines (e.before.recordsOf e.call))).accepted
  else Writer.lines e.written

end Entry

theorem run_cons (c : Capture) (k : Call) (rest : List Call) :
    c.run (k :: rest) = ((c.call k).1 :: ((c.call k).2.run rest).1, ((c.call k).2.run rest).2) := rfl

theorem run_append (c : Capture) (a b : List Call) :
    c.run (a ++ b) = ((c.run a).1 ++ ((c.run a).2.run b).1, ((c.run a).2.run b).2) := by
  induction a generalizing c with
  | nil => rfl
  | cons k a ih => simp only [List.cons_append, run, ih]

theorem run_replies (c : Capture) (calls : List Call) : (c.run calls).1 = (c.journal calls).map Entry.reply := by
  induction calls generalizing c with
  | nil => rfl
  | cons k rest ih => simp only [run, journal, List.map_cons, ih, Entry.reply]

theorem journal_calls (c : Capture) (calls : List Call) : (c.journal calls).map Entry.call = calls := by
  induction calls generalizing c with
  | nil => rfl
  | cons k rest ih => rw [journal, List.map_cons, ih]

/-- An induction over a run: what a call keeps, the run keeps. -/
theorem run_keeps {P : Capture → Prop} (step : ∀ c k, P c → P (c.call k).2) (c : Capture) (calls : List Call)
    (h : P c) : P (c.run calls).2 := by
  induction calls generalizing c with
  | nil => exact h
  | cons k rest ih => exact ih _ (step c k h)

theorem journal_keeps {P : Capture → Prop} (step : ∀ c k, P c → P (c.call k).2) (c : Capture) (calls : List Call)
    (h : P c) : ∀ e ∈ c.journal calls, P e.before := by
  induction calls generalizing c with
  | nil => intro e he; cases he
  | cons k rest ih =>
    intro e he
    rcases List.mem_cons.mp he with rfl | he
    · exact h
    · exact ih _ (step c k h) e he

/-- A submission hands its routes to the writer, whichever kind of call it came in. -/
theorem Takes.recordsOf {c : Capture} {k : Call} {sub : Submission} (h : c.Takes k sub) :
    c.recordsOf k = (c.routesOf sub).map .route := by
  have hs := h.submits
  cases k with
  | header s => cases hs
  | batch layer b requestId => simp only [Capture.recordsOf, hs]
  | tensors layer ids weights requestId => simp only [Capture.recordsOf, hs]
  | finish requestId => cases hs
  | close => cases hs

theorem routesOf_length {c : Capture} {k : Call} {sub : Submission} (h : c.Takes k sub) :
    (c.routesOf sub).length = sub.batch.experts.length := by
  by_cases hl : sub.batch.experts.length = sub.batch.weights.length
  · simp [routesOf, Batch.routes, Batch.rows, hl]
  · have hs := h.sound
    unfold Batch.fault? at hs
    rw [if_pos hl] at hs
    cases hs

theorem routesOf_nil {c : Capture} {k : Call} {sub : Submission} (h : c.Takes k sub) (hb : sub.batch.experts = []) :
    c.routesOf sub = [] := by
  apply List.eq_nil_of_length_eq_zero
  rw [routesOf_length h, hb]
  rfl

theorem close_bytes (c : Capture) : c.close.bytes = c.bytes := by
  unfold close bytes
  by_cases ha : c.attached = true
  · simp [ha, Writer.flush_stream]
  · simp [ha]

/-- What one call adds to the stream, and how it reports it. -/
theorem call_bytes (c : Capture) (k : Call) : (c.call k).2.bytes = c.bytes ++ (Entry.mk c k).left := by
  have he := call_effect c k
  unfold Entry.left Entry.written Entry.reply
  generalize (c.call k).1 = reply at he ⊢
  generalize (c.call k).2 = after at he ⊢
  cases he with
  | refused _ s hs =>
    rw [Status.lost_of_refusal hs, Status.accepted_of_refusal hs]
    exact (List.append_nil _).symm
  | header s w he ha hs hw => exact (Writer.writeBatch_ok hw).2.1
  | headerLost s w e he ha hs hw => exact (Writer.writeBatch_error hw).1
  | empty _ sub ht hb =>
    simp only [Reply.lost, Reply.accepted, if_true, if_false, Bool.false_eq_true, ht.recordsOf, routesOf_nil ht hb]
    exact (List.append_nil _).symm
  | batch _ sub w ht hb hw =>
    simp only [Reply.lost, Reply.accepted, if_true, if_false, Bool.false_eq_true, ht.recordsOf]
    exact (Writer.writeBatch_ok hw).2.1
  | batchLost _ sub w e ht hb hw =>
    simp only [Reply.lost, CaptureError.fromStream, if_true, ht.recordsOf]
    exact (Writer.writeBatch_error hw).1
  | finished requestId => simp [Reply.lost, Reply.accepted, Writer.lines, finishRequest, bytes]
  | closed =>
    simp only [Reply.lost, Reply.accepted, Bool.false_eq_true, if_false, Writer.lines_nil, List.append_nil]
    exact close_bytes c

theorem left_eq_of_not_lost {e : Entry} (h : e.reply.lost = false) : e.left = Writer.lines e.written := by
  unfold Entry.left
  rw [if_neg (by simp [h])]

theorem Entry.bytes_of_accepted {e : Entry} (h : e.reply.accepted = true) :
    e.after.bytes = e.before.bytes ++ Writer.lines e.written := by
  have hlost : e.reply.lost = false := by
    unfold Reply.accepted at h
    split at h
    · rename_i hreply
      rw [hreply]
      rfl
    · cases h
  have hbytes : e.after.bytes = e.before.bytes ++ e.left := call_bytes e.before e.call
  rw [hbytes, left_eq_of_not_lost hlost]

/-- The stream after a run: what it held, and what every entry left. -/
theorem run_bytes (c : Capture) (calls : List Call) :
    (c.run calls).2.bytes = c.bytes ++ (c.journal calls).flatMap Entry.left := by
  induction calls generalizing c with
  | nil => exact (List.append_nil _).symm
  | cons k rest ih =>
    simp only [run, journal, List.flatMap_cons]
    rw [ih, call_bytes, List.append_assoc]

theorem count_eq_length (c : Capture) (k : Call) : (Entry.mk c k).reply.count = (Entry.mk c k).written.length := by
  have he := call_effect c k
  unfold Entry.written Entry.reply
  generalize (c.call k).1 = reply at he ⊢
  generalize (c.call k).2 = after at he
  cases he with
  | refused _ s hs =>
    rw [Status.count_of_refusal hs, Status.accepted_of_refusal hs]
    rfl
  | header s w he ha hs hw => rfl
  | headerLost s w e he ha hs hw => rfl
  | empty _ sub ht hb => simp [Reply.count, Reply.accepted, ht.recordsOf, routesOf_nil ht hb]
  | batch _ sub w ht hb hw => simp [Reply.count, Reply.accepted, ht.recordsOf]
  | batchLost _ sub w e ht hb hw => rfl
  | finished requestId => rfl
  | closed => rfl

/-! ## Streams that never fail -/

theorem call_neverFails {c : Capture} (h : c.writer.stream.NeverFails) (k : Call) :
    (c.call k).1.lost = false ∧ (c.call k).2.writer.stream.NeverFails := by
  have he := call_effect c k
  generalize (c.call k).1 = reply at he ⊢
  generalize (c.call k).2 = after at he ⊢
  have hbatch : ∀ {records : List Record} {w : Writer}, c.writer.writeBatch records = (.ok records.length, w) →
      w.stream.NeverFails := by
    intro records w hw
    have hs := (Writer.writeBatch_neverFails h records).2
    rwa [hw] at hs
  have hlost : ∀ {records : List Record} {w : Writer} {e : StreamError},
      c.writer.writeBatch records ≠ (.error e, w) := by
    intro records w e hw
    have hs := (Writer.writeBatch_neverFails h records).1
    rw [hw] at hs
    cases hs
  cases he with
  | refused _ s hs => exact ⟨Status.lost_of_refusal hs, h⟩
  | header s w he ha hs hw => exact ⟨rfl, hbatch hw⟩
  | headerLost s w e he ha hs hw => exact absurd hw hlost
  | empty _ sub ht hb => exact ⟨rfl, h⟩
  | batch _ sub w ht hb hw => exact ⟨rfl, hbatch (by rw [hw, List.length_map]; rfl)⟩
  | batchLost _ sub w e ht hb hw => exact absurd hw hlost
  | finished requestId => exact ⟨rfl, h⟩
  | closed =>
    refine ⟨rfl, ?_⟩
    unfold close
    by_cases ha : c.attached = true
    · simp [ha, Writer.flush_stream, h.flush.2]
    · simp [ha, h]

theorem call_bytes_neverFails {c : Capture} (h : c.writer.stream.NeverFails) (k : Call) :
    (c.call k).2.bytes = c.bytes ++ Writer.lines (Entry.mk c k).written := by
  have hlost : (Entry.mk c k).reply.lost = false := (call_neverFails h k).1
  rw [call_bytes, left_eq_of_not_lost hlost]

def runRecords (c : Capture) (calls : List Call) : List Record := (c.journal calls).flatMap Entry.written

theorem runRecords_cons (c : Capture) (k : Call) (rest : List Call) :
    c.runRecords (k :: rest) = (Entry.mk c k).written ++ (c.call k).2.runRecords rest := rfl

theorem run_bytes_neverFails {c : Capture} (hs : c.writer.stream.NeverFails) (calls : List Call) :
    (c.run calls).2.bytes = c.bytes ++ Writer.lines (c.runRecords calls) := by
  induction calls generalizing c with
  | nil => exact (List.append_nil _).symm
  | cons k calls ih =>
    show ((c.call k).2.run calls).2.bytes = _
    rw [ih (call_neverFails hs k).2, call_bytes_neverFails hs, List.append_assoc, ← Writer.lines_append,
      runRecords_cons]

theorem run_neverFails {c : Capture} (hs : c.writer.stream.NeverFails) (calls : List Call) :
    (c.run calls).2.writer.stream.NeverFails :=
  run_keeps (P := fun c => c.writer.stream.NeverFails) (fun _ k h => (call_neverFails h k).2) c calls hs

end Capture

end ExpertRouting
