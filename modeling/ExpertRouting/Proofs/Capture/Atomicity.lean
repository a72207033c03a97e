/-
  ExpertRouting.Proofs.Capture.Atomicity — what a failing stream keeps of a call.

  The sink hands all lines of a call over as one buffer, but takes nothing back: what the
  stream accepted before it failed stays there, and the next written call goes on after it.
  So a failed call leaves the stream as it was exactly when the stream refuses at once, and
  a run leaves nothing but complete lines of written calls exactly when every failure in it
  is such a refusal (`failure_atomic_iff_refused`). A short write before the failure, or a
  failing flush, leaves a fragment (`a_short_write_spoils_the_next_line`).
-/

import ExpertRouting.Proofs.Capture.Journal
import ExpertRouting.Trace.Basic

namespace ExpertRouting.Capture

/-- The stream accepts no byte of the buffer that an entry hands over. -/
def Entry.refused (e : Entry) : Bool := refusesAtOnce e.before.writer.stream.writes

theorem recordsOf_ne_nil_of_lost {c : Capture} {k : Call} (h : (c.call k).1.lost = true) : c.recordsOf k ≠ [] := by
  have he := call_effect c k
  generalize (c.call k).1 = reply at he h
  generalize (c.call k).2 = after at he
  cases he with
  | refused _ s hs =>
    rw [Status.lost_of_refusal hs] at h
    cases h
  | headerLost s w e he ha hs hw => exact List.cons_ne_nil _ _
  | batchLost _ sub w e ht hb hw =>
    rw [ht.recordsOf]
    intro hnil
    apply hb
    apply List.eq_nil_of_length_eq_zero
    rw [← routesOf_length ht, List.map_eq_nil_iff.mp hnil]
    rfl
  | _ => cases h

/-- A lost entry leaves nothing exactly when its buffer was refused. -/
theorem left_eq_nil_iff {e : Entry} (h : e.reply.lost = true) : e.left = [] ↔ e.refused = true := by
  unfold Entry.left
  rw [if_pos h]
  exact offer_nothing_iff _ (Writer.lines_ne_nil (recordsOf_ne_nil_of_lost h))

/-- A lost entry leaves a prefix of its lines, all of them when it was the flush that failed. -/
theorem left_of_lost {e : Entry} {err : StreamError} (h : e.reply = .status (.degraded (.stream err))) :
    e.left <+: Writer.lines (e.before.recordsOf e.call) ∧
      (e.left = Writer.lines (e.before.recordsOf e.call) ↔ err = .flush) := by
  obtain ⟨c, k⟩ := e
  have hlost : (Entry.mk c k).reply.lost = true := by rw [h]; rfl
  unfold Entry.left
  rw [if_pos hlost]
  refine ⟨offer_takes_front _ _, ?_⟩
  have he := call_effect c k
  have hreply : (c.call k).1 = .status (.degraded (.stream err)) := h
  rw [hreply] at he
  generalize (c.call k).2 = after at he
  cases he with
  | refused _ s hs => cases hs
  | headerLost s w _ he ha hs hw => exact (Writer.writeBatch_error hw).2.2
  | batchLost _ sub w _ ht hb hw =>
    show (offer _ (Writer.lines (c.recordsOf k))).accepted = Writer.lines (c.recordsOf k) ↔ _
    rw [ht.recordsOf]
    exact (Writer.writeBatch_error hw).2.2

theorem entry_bytes (e : Entry) : e.after.bytes = e.before.bytes ++ e.left := call_bytes e.before e.call

theorem lines_written (es : List Entry) :
    Writer.lines (es.flatMap Entry.written) = es.flatMap fun e => Writer.lines e.written := by
  simp [Writer.lines, List.flatMap_assoc]

theorem written_of_lost {e : Entry} (h : e.reply.lost = true) : e.written = [] := by
  unfold Entry.written
  rw [if_neg]
  intro ha
  unfold Reply.lost at h
  unfold Reply.accepted at ha
  split at ha <;> simp_all

/-- Entries leave at least the lines of those written, and no more exactly when every lost one leaves nothing. -/
theorem left_eq_lines_iff (es : List Entry) :
    es.flatMap Entry.left = Writer.lines (es.flatMap Entry.written) ↔
      ∀ e ∈ es, e.reply.lost = true → e.left = [] := by
  rw [lines_written]
  have hle : ∀ es : List Entry,
      (es.flatMap fun e => Writer.lines e.written).length ≤ (es.flatMap Entry.left).length := by
    intro es
    induction es with
    | nil => exact Nat.le_refl _
    | cons e es ih =>
      simp only [List.flatMap_cons, List.length_append]
      cases hl : e.reply.lost with
      | true => rw [written_of_lost hl, Writer.lines_nil, List.length_nil]; omega
      | false => rw [left_eq_of_not_lost hl]; omega
  induction es with
  | nil => simp
  | cons e es ih =>
    rw [List.forall_mem_cons, List.flatMap_cons, List.flatMap_cons]
    cases hl : e.reply.lost with
    | true =>
      rw [written_of_lost hl, Writer.lines_nil, List.nil_append]
      constructor
      · intro h
        have hlen := congrArg List.length h
        have := hle es
        rw [List.length_append] at hlen
        have hnil : e.left = [] := List.eq_nil_of_length_eq_zero (by omega)
        rw [hnil, List.nil_append] at h
        exact ⟨fun _ => hnil, ih.mp h⟩
      · rintro ⟨hnil, h⟩
        rw [hnil rfl, List.nil_append]
        exact ih.mpr h
    | false =>
      rw [left_eq_of_not_lost hl, List.append_cancel_left_eq]
      exact ⟨fun h => ⟨fun hf => (Bool.false_ne_true hf).elim, ih.mp h⟩, fun h => ih.mpr h.2⟩

/-- A failed call leaves some prefix of its lines, and nothing exactly when the stream refuses
    at once; so a run leaves complete lines of written calls and nothing else exactly when
    every failure in it is such a refusal. -/
theorem failure_atomic_iff_refused (c : Capture) (calls : List Call) :
    (∀ e ∈ c.journal calls, ∀ err, e.reply = .status (.degraded (.stream err)) →
      ∃ part, e.after.bytes = e.before.bytes ++ part ∧ part <+: Writer.lines (e.before.recordsOf e.call) ∧
        (part = Writer.lines (e.before.recordsOf e.call) ↔ err = .flush) ∧
        (e.after.bytes = e.before.bytes ↔ e.refused = true)) ∧
    ((c.run calls).2.bytes = c.bytes ++ Writer.lines ((c.journal calls).flatMap Entry.written) ↔
      ∀ e ∈ c.journal calls, ∀ err, e.reply = .status (.degraded (.stream err)) → e.refused = true) := by
  constructor
  · intro e _ err h
    have hlost : e.reply.lost = true := by rw [h]; rfl
    obtain ⟨hpre, hall⟩ := left_of_lost h
    refine ⟨e.left, entry_bytes e, hpre, hall, ?_⟩
    rw [entry_bytes, ← left_eq_nil_iff hlost]
    exact List.append_right_eq_self
  · rw [run_bytes, List.append_cancel_left_eq, left_eq_lines_iff]
    constructor
    · intro h e he err herr
      have hlost : e.reply.lost = true := by rw [herr]; rfl
      exact (left_eq_nil_iff hlost).mp (h e he hlost)
    · intro h e he hlost
      have hr := hlost
      unfold Reply.lost at hr
      split at hr
      · rename_i err herr
        cases err with
        | stream err => exact (left_eq_nil_iff hlost).mpr (h e he err herr)
        | _ => cases hr
      · cases hr

/-- A batch that fails after five bytes leaves them in the stream. The next batch is written
    behind them, and its line can no longer be read. -/
theorem a_short_write_spoils_the_next_line :
    let session : Session := { modelId := "m", shape := ⟨2, 4⟩, device := "cpu" }
    let batch : Batch := ⟨[[2, 0]], [[Binary.ofDecimal binary64 false 5 (-1), Binary.ofDecimal binary64 false 25 (-2)]]⟩
    let c := ((onto { writes := [.all, .short 5, .full] } 0).call (.header session)).2
    let failed := c.call (.batch 0 batch none)
    let next := failed.2.call (.batch 0 batch none)
    failed.1 = .status (.degraded (.stream .full)) ∧
      failed.2.bytes = c.bytes ++ Utf8.encode ['{', '"', 't', 'y', 'p'] ∧ failed.2.bytes ≠ c.bytes ∧
      next.1 = .status (.written 1) ∧
      (Trace.parse c.bytes).toOption.isSome = true ∧ (Trace.parse next.2.bytes).toOption = none := by
  decide +kernel

end ExpertRouting.Capture
