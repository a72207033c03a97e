/-
  ExpertRouting.Proofs.Capture.Effect — everything one call on the sink can do.

  `Effect c k reply c'` lists the outcomes of a call with their guards: it is refused and
  changes nothing, a header or a batch reaches the writer and is written or fails there, an
  empty batch only takes its request id, a request is finished, or the sink is closed.
  `call_effect` says that there are no others. Batches and tensors differ only in where
  their rows come from (`Call.submission?`), so they share their outcomes.
-/

import ExpertRouting.Capture.Basic
import ExpertRouting.Proofs.Except
import ExpertRouting.Proofs.Sink.Delivery

namespace ExpertRouting

structure Submission where
  layer : UInt64
  batch : Batch
  requestId : Option String

def Call.submission? : Call → Option Submission
  | .batch layer b requestId => some ⟨layer, b, requestId⟩
  | .tensors layer ids weights requestId =>
    match Tensor.batch ids weights with
    | .ok b => some ⟨layer, b, requestId⟩
    | .error _ => none
  | _ => none

/-- A failure of the stream, as against a call that is turned away before it. -/
def CaptureError.fromStream : CaptureError → Bool
  | .stream _ => true
  | _ => false

def Status.refusal : Status → Bool
  | .written _ => false
  | .degraded e => !e.fromStream
  | _ => true

namespace Batch

theorem rowFault_not_stream {shape : Option Shape} {width row : Nat} {experts : List UInt32} {weights : List Real64}
    {e : CaptureError} (h : rowFault? shape width row experts weights = some e) : e.fromStream = false := by
  unfold rowFault? at h
  split at h
  · cases h; rfl
  split at h
  · cases h; rfl
  split at h
  · cases h; rfl
  · obtain ⟨column, -, rfl⟩ := Option.map_eq_some_iff.mp h
    rfl

theorem rowsFault_not_stream {shape : Option Shape} {e : CaptureError} :
    ∀ (rows : List (List UInt32 × List Real64)) (width : Option Nat) (row : Nat),
      rowsFault? shape width row rows = some e → e.fromStream = false := by
  intro rows
  induction rows with
  | nil => intro _ _ h; cases h
  | cons r rest ih =>
    intro width row h
    simp only [rowsFault?, Option.or_eq_some_iff] at h
    rcases h with h | ⟨-, h⟩
    · exact rowFault_not_stream h
    · exact ih _ _ h

theorem fault_not_stream {shape : Option Shape} {b : Batch} {e : CaptureError} (h : b.fault? shape = some e) :
    e.fromStream = false := by
  unfold fault? at h
  split at h
  · cases h; rfl
  · exact rowsFault_not_stream _ _ _ h

end Batch

namespace Tensor

theorem expert_not_stream {row : Nat} {id : Int} {e : CaptureError} (h : expert row id = .error e) :
    e.fromStream = false := by
  unfold expert at h
  split at h
  · cases h
  · cases h; rfl

theorem experts_not_stream {row : Nat} {ids : List Int} {e : CaptureError} (h : ids.mapM (expert row) = .error e) :
    e.fromStream = false := by
  induction ids with
  | nil => cases h
  | cons id rest ih =>
    rw [List.mapM_cons] at h
    rcases bind_error h with hfirst | ⟨expert, -, h⟩
    · exact expert_not_stream hfirst
    rcases bind_error h with hrest | ⟨experts, -, h⟩
    · exact ih hrest
    · cases h

theorem expertRows_not_stream {e : CaptureError} {rows : List (List Int)} {row : Nat}
    (h : expertRows row rows = .error e) : e.fromStream = false := by
  induction rows generalizing row with
  | nil => cases h
  | cons ids rest ih =>
    rcases bind_error h with hfirst | ⟨experts, -, h⟩
    · exact experts_not_stream hfirst
    rcases bind_error h with hrest | ⟨more, -, h⟩
    · exact ih hrest
    · cases h

theorem size_not_stream {t : Tensor} {e : CaptureError} (h : t.size? = .error e) : e.fromStream = false := by
  unfold size? at h
  split at h
  · cases h
  · cases h; rfl

theorem batch_not_stream {ids weights : Tensor} {e : CaptureError} (h : Tensor.batch ids weights = .error e) :
    e.fromStream = false := by
  rcases bind_error h with hids | ⟨size, -, h⟩
  · exact size_not_stream hids
  rcases bind_error h with hweights | ⟨size', -, h⟩
  · exact size_not_stream hweights
  rcases bind_error h with hrows | ⟨experts, -, h⟩
  · exact expertRows_not_stream hrows
  · cases h

end Tensor

namespace Capture

structure Takes (c : Capture) (k : Call) (sub : Submission) : Prop where
  submits : k.submission? = some sub
  enabled : c.enabled = true
  attached : c.attached = true
  layer : sub.layer = c.layer
  sound : sub.batch.fault? c.shape = none

def origin (c : Capture) (requestId : Option String) : String × Nat := (c.owner requestId).1

@[simp] theorem origin_some (c : Capture) (id : String) : c.origin (some id) = (id, c.offsets id) := rfl
@[simp] theorem origin_none (c : Capture) : c.origin none = (mintedId c.minted, 0) := rfl

/-- The sink once a submission has its request id. -/
def claimed (c : Capture) (requestId : Option String) : Capture :=
  { c with minted := if requestId.isNone then c.minted + 1 else c.minted }

theorem owner_eq (c : Capture) (requestId : Option String) :
    c.owner requestId = (c.origin requestId, c.claimed requestId) := by
  cases requestId <;> rfl

def routesOf (c : Capture) (sub : Submission) : List Route :=
  sub.batch.routes (c.origin sub.requestId).1 c.layer (c.origin sub.requestId).2

/-- The sink after `n` routes of a submission were written. -/
def counted (c : Capture) (sub : Submission) (n : Nat) (w : Writer) : Capture :=
  { c.claimed sub.requestId with
    writer := w
    offsets := if sub.requestId.isSome then
        setOffset c.offsets (c.origin sub.requestId).1 ((c.origin sub.requestId).2 + n)
      else c.offsets }

inductive Effect (c : Capture) : Call → Reply → Capture → Prop
  | refused (k : Call) (s : Status) : s.refusal = true → Effect c k (.status s) c
  | header (s : Session) (w : Writer) : c.enabled = true → c.attached = true → s.shape.sound = true →
      c.writer.writeBatch [.header (s.header c.layer)] = (.ok 1, w) →
      Effect c (.header s) (.status (.written 1)) { c with writer := w, shape := some s.shape }
  | headerLost (s : Session) (w : Writer) (e : StreamError) :
      c.enabled = true → c.attached = true → s.shape.sound = true →
      c.writer.writeBatch [.header (s.header c.layer)] = (.error e, w) →
      Effect c (.header s) (.status (.degraded (.stream e))) { c with writer := w }
  /-- A batch without rows takes its id and is not handed to the writer. -/
  | empty (k : Call) (sub : Submission) : c.Takes k sub → sub.batch.experts = [] →
      Effect c k (.status (.written 0)) (c.claimed sub.requestId)
  | batch (k : Call) (sub : Submission) (w : Writer) : c.Takes k sub → sub.batch.experts ≠ [] →
      c.writer.writeBatch ((c.routesOf sub).map .route) = (.ok (c.routesOf sub).length, w) →
      Effect c k (.status (.written (c.routesOf sub).length)) (c.counted sub (c.routesOf sub).length w)
  | batchLost (k : Call) (sub : Submission) (w : Writer) (e : StreamError) :
      c.Takes k sub → sub.batch.experts ≠ [] →
      c.writer.writeBatch ((c.routesOf sub).map .route) = (.error e, w) →
      Effect c k (.status (.degraded (.stream e))) { c.claimed sub.requestId with writer := w }
  | finished (requestId : String) : Effect c (.finish requestId) .finished (c.finishRequest requestId)
  | closed : Effect c .close .closed c.close

theorem header_effect (c : Capture) (s : Session) :
    Effect c (.header s) (.status (c.writeHeader s).1) (c.writeHeader s).2 := by
  unfold writeHeader
  by_cases he : c.enabled = true
  case neg => rw [if_pos (by simpa using he)]; exact .refused _ _ rfl
  rw [if_neg (by simpa using he)]
  by_cases hs : s.shape.sound = true
  case neg => rw [if_pos (by simpa using hs)]; exact .refused _ _ rfl
  rw [if_neg (by simpa using hs)]
  by_cases ha : c.attached = true
  case neg => rw [if_pos (by simpa using ha)]; exact .refused _ _ rfl
  rw [if_neg (by simpa using ha)]
  unfold Writer.writeRecord
  rcases hw : c.writer.writeBatch [.header (s.header c.layer)] with ⟨e | n, w⟩
  · exact .headerLost s w e he ha hs hw
  · have := (Writer.writeBatch_ok hw).1
    subst this
    exact .header s w he ha hs hw

theorem writeRoutes_eq (c : Capture) (sub : Submission) :
    c.writeRoutes sub.batch sub.requestId =
      if sub.batch.experts.isEmpty then (.written 0, c.claimed sub.requestId)
      else match c.writer.writeBatch ((c.routesOf sub).map .route) with
        | (.error e, w) => (.degraded (.stream e), { c.claimed sub.requestId with writer := w })
        | (.ok n, w) => (.written n, c.counted sub n w) := by
  unfold writeRoutes
  rw [owner_eq]
  rfl

theorem takes_effect {c : Capture} {k : Call} {sub : Submission} (h : c.Takes k sub) :
    Effect c k (.status (c.writeRoutes sub.batch sub.requestId).1) (c.writeRoutes sub.batch sub.requestId).2 := by
  rw [writeRoutes_eq]
  by_cases hb : sub.batch.experts = []
  · rw [if_pos (by simpa using hb)]
    exact .empty k sub h hb
  · rw [if_neg (by simpa using hb)]
    rcases hw : c.writer.writeBatch ((c.routesOf sub).map .route) with ⟨e | n, w⟩
    · exact .batchLost k sub w e h hb hw
    · have hn : n = (c.routesOf sub).length := by rw [(Writer.writeBatch_ok hw).1, List.length_map]
      subst hn
      exact .batch k sub w h hb hw

/-- A recording call does what the sink does with its submission. -/
theorem record_effect {c : Capture} {k : Call} {sub : Submission} (hk : k.submission? = some sub) :
    Effect c k (.status (c.recordBatch sub.layer sub.batch sub.requestId).1)
      (c.recordBatch sub.layer sub.batch sub.requestId).2 := by
  unfold recordBatch
  by_cases he : c.enabled = true
  case neg => rw [if_pos (by simpa using he)]; exact .refused _ _ rfl
  rw [if_neg (by simpa using he)]
  by_cases hl : sub.layer = c.layer
  case neg => rw [if_pos hl]; exact .refused _ _ rfl
  rw [if_neg (not_not_intro hl)]
  by_cases ha : c.attached = true
  case neg => rw [if_pos (by simpa using ha)]; exact .refused _ _ rfl
  rw [if_neg (by simpa using ha)]
  cases hf : sub.batch.fault? c.shape with
  | some e => exact .refused _ _ (by simp [Status.refusal, Batch.fault_not_stream hf])
  | none => exact takes_effect ⟨hk, he, ha, hl, hf⟩

theorem call_effect (c : Capture) (k : Call) : Effect c k (c.call k).1 (c.call k).2 := by
  cases k with
  | header s => exact header_effect c s
  | batch layer b requestId => exact record_effect (k := .batch layer b requestId) rfl
  | finish requestId => exact .finished requestId
  | close => exact .closed
  | tensors layer ids weights requestId =>
    show Effect c _ (.status (c.recordTensors layer ids weights requestId).1)
      (c.recordTensors layer ids weights requestId).2
    unfold recordTensors
    by_cases he : c.enabled = true
    case neg => rw [if_pos (by simpa using he)]; exact .refused _ _ rfl
    rw [if_neg (by simpa using he)]
    by_cases hl : layer = c.layer
    case neg => rw [if_pos hl]; exact .refused _ _ rfl
    rw [if_neg (not_not_intro hl)]
    cases ht : Tensor.batch ids weights with
    | error e => exact .refused _ _ (by simp [Status.refusal, Tensor.batch_not_stream ht])
    | ok b =>
      have hk : (Call.tensors layer ids weights requestId).submission? = some ⟨layer, b, requestId⟩ := by
        simp [Call.submission?, ht]
      exact record_effect hk

theorem call_layer (c : Capture) (k : Call) : (c.call k).2.layer = c.layer := by
  have he := call_effect c k
  generalize (c.call k).1 = reply at he
  generalize (c.call k).2 = after at he ⊢
  cases he <;> rfl

/-- A call whose submission is taken does what the sink does with the submission. -/
theorem Takes.call_eq {c : Capture} {k : Call} {sub : Submission} (h : c.Takes k sub) :
    c.call k = (.status (c.writeRoutes sub.batch sub.requestId).1, (c.writeRoutes sub.batch sub.requestId).2) := by
  have hrecord : c.recordBatch sub.layer sub.batch sub.requestId = c.writeRoutes sub.batch sub.requestId := by
    rw [recordBatch, if_neg (by simp [h.enabled]), if_neg (not_not_intro h.layer), if_neg (by simp [h.attached]),
      h.sound]
  have hs := h.submits
  cases k with
  | batch layer b requestId =>
    cases hs
    rw [call, hrecord]
  | tensors layer ids weights requestId =>
    simp only [Call.submission?] at hs
    split at hs
    · rename_i b hb
      cases hs
      rw [call, recordTensors, if_neg (by simp [h.enabled]), if_neg (not_not_intro h.layer), hb]
      simp only [hrecord]
    · cases hs
  | header s => cases hs
  | finish requestId => cases hs
  | close => cases hs

end Capture

end ExpertRouting
