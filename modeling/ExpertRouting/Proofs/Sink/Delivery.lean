/-
  ExpertRouting.Proofs.Sink.Delivery — what a stream holds after a buffer was handed over.

  Whatever a stream replies, it gains a prefix of the buffer: the whole buffer exactly when
  no write fails (`offer_error_none_iff`), and nothing exactly when the first reply that is
  no interruption accepts no byte (`offer_nothing_iff`). A batch of records is written when
  all its lines are accepted and the flush after them succeeds; otherwise some prefix of
  its lines stays in the stream (`writeBatch_cases`), all of it when only the flush failed.
-/

import ExpertRouting.Sink.Writer

namespace ExpertRouting

/-! ## Buffers -/

/-- The first reply that is no interruption accepts no byte. -/
def refusesAtOnce : List WriteReply → Bool
  | .interrupted :: rest => refusesAtOnce rest
  | .full :: _ => true
  | .short 0 :: _ => true
  | _ => false

/-- A reply after which the rest of the buffer is still handed over. -/
def WriteReply.Accepting (r : WriteReply) : Prop := r ≠ .full ∧ r ≠ .short 0

@[simp] theorem Offer.after_accepted (bytes : List UInt8) (o : Offer) :
    (o.after bytes).accepted = bytes ++ o.accepted := rfl
@[simp] theorem Offer.after_error (bytes : List UInt8) (o : Offer) : (o.after bytes).error = o.error := rfl

/-- A short write splits the buffer, its first byte going with the part accepted. -/
theorem cons_take_append_drop (b : UInt8) (buffer : List UInt8) (n : Nat) :
    b :: buffer = (b :: buffer.take n) ++ buffer.drop n := by
  rw [List.cons_append, List.take_append_drop]

theorem offer_takes_front (replies : List WriteReply) (buffer : List UInt8) :
    (offer replies buffer).accepted <+: buffer := by
  fun_induction offer replies buffer with
  | case1 replies => exact List.prefix_refl []
  | case2 b buffer => exact List.prefix_refl _
  | case3 b buffer replies => exact List.prefix_refl _
  | case4 replies b buffer => exact List.nil_prefix
  | case5 replies b buffer ih => simpa using ih
  | case6 replies b buffer => exact List.nil_prefix
  | case7 n replies b buffer ih =>
    rw [Offer.after_accepted, cons_take_append_drop b buffer n]
    exact List.prefix_append_right_inj _ |>.mpr ih

theorem offer_error_none_iff (replies : List WriteReply) (buffer : List UInt8) :
    (offer replies buffer).error = none ↔ (offer replies buffer).accepted = buffer := by
  fun_induction offer replies buffer with
  | case1 replies => simp
  | case2 b buffer => simp
  | case3 b buffer replies => simp
  | case4 replies b buffer => simp
  | case5 replies b buffer ih => simpa using ih
  | case6 replies b buffer => simp
  | case7 n replies b buffer ih =>
    rw [Offer.after_error, Offer.after_accepted, ih]
    conv => rhs; rhs; rw [cons_take_append_drop b buffer n]
    exact (List.append_cancel_left_eq _ _ _).symm.to_iff

theorem offer_error_ne_flush (replies : List WriteReply) (buffer : List UInt8) :
    (offer replies buffer).error ≠ some .flush := by
  fun_induction offer replies buffer <;> simp_all

theorem offer_nothing_iff (replies : List WriteReply) {buffer : List UInt8} (hb : buffer ≠ []) :
    (offer replies buffer).accepted = [] ↔ refusesAtOnce replies = true := by
  fun_induction offer replies buffer with
  | case1 replies => exact absurd rfl hb
  | case2 b buffer => simp [refusesAtOnce]
  | case3 b buffer replies => simp [refusesAtOnce]
  | case4 replies b buffer => simp [refusesAtOnce]
  | case5 replies b buffer ih => simpa [refusesAtOnce] using ih hb
  | case6 replies b buffer => simp [refusesAtOnce]
  | case7 n replies b buffer ih => simp [refusesAtOnce]

/-- Accepting replies take the whole buffer, and only accepting ones are left. -/
theorem offer_accepting {replies : List WriteReply} (h : ∀ r ∈ replies, r.Accepting) (buffer : List UInt8) :
    (offer replies buffer).error = none ∧ ∀ r ∈ (offer replies buffer).writes, r.Accepting := by
  fun_induction offer replies buffer with
  | case1 replies => exact ⟨rfl, h⟩
  | case2 b buffer => exact ⟨rfl, h⟩
  | case3 b buffer replies => exact ⟨rfl, fun r hr => h r (List.mem_cons_of_mem _ hr)⟩
  | case4 replies b buffer => exact absurd rfl (h _ List.mem_cons_self).1
  | case5 replies b buffer ih => exact ih fun r hr => h r (List.mem_cons_of_mem _ hr)
  | case6 replies b buffer => exact absurd rfl (h _ List.mem_cons_self).2
  | case7 n replies b buffer ih => exact ih fun r hr => h r (List.mem_cons_of_mem _ hr)

/-- Bytes of a buffer are kept back only by a reply that accepts nothing. -/
theorem offer_refused {replies : List WriteReply} {buffer : List UInt8}
    (h : (offer replies buffer).accepted ≠ buffer) : ∃ r ∈ replies, ¬ r.Accepting := by
  refine Classical.byContradiction fun hnone => h ?_
  have haccepting : ∀ r ∈ replies, r.Accepting := fun r hr => Classical.not_not.mp fun hr' => hnone ⟨r, hr, hr'⟩
  exact (offer_error_none_iff replies buffer).mp (offer_accepting haccepting buffer).1

/-! ## Streams -/

namespace Stream

/-- A stream that accepts every buffer, in however many writes, and every flush. -/
structure NeverFails (s : Stream) : Prop where
  writes : ∀ r ∈ s.writes, r.Accepting
  flushes : ∀ r ∈ s.flushes, r = .done

def took (s : Stream) (o : Offer) : Stream :=
  { s with newestFirst := o.accepted.reverse ++ s.newestFirst
           writes := o.writes
           writeCalls := s.writeCalls + o.calls }

theorem writeAll_eq (s : Stream) (buffer : List UInt8) :
    s.writeAll buffer = ((match (offer s.writes buffer).error with
      | some e => .error e
      | none => .ok ()), s.took (offer s.writes buffer)) := by
  unfold writeAll took
  cases h : (offer s.writes buffer).error <;> simp [h]

@[simp] theorem took_bytes (s : Stream) (o : Offer) : (s.took o).bytes = s.bytes ++ o.accepted := by
  simp [took, bytes]

@[simp] theorem flush_bytes (s : Stream) : s.flush.2.bytes = s.bytes := by
  unfold flush
  split <;> rfl

theorem flush_error {s : Stream} {e : StreamError} (h : s.flush.1 = .error e) : e = .flush := by
  unfold flush at h
  split at h
  · exact (Except.error.inj h).symm
  · cases h

theorem NeverFails.writeAll {s : Stream} (h : s.NeverFails) (buffer : List UInt8) :
    (s.writeAll buffer).1 = .ok () ∧ (s.writeAll buffer).2.NeverFails := by
  obtain ⟨hn, hw⟩ := offer_accepting h.writes buffer
  rw [writeAll_eq, hn]
  exact ⟨rfl, hw, h.flushes⟩

theorem NeverFails.flush {s : Stream} (h : s.NeverFails) : s.flush.1 = .ok () ∧ s.flush.2.NeverFails := by
  have hd : ∀ r ∈ s.flushes.drop 1, r = .done := fun r hr => h.flushes r (List.mem_of_mem_drop hr)
  unfold Stream.flush
  split
  · rename_i hf
    have := h.flushes _ (List.mem_of_mem_head? hf)
    cases this
  · exact ⟨rfl, h.writes, hd⟩

end Stream

/-! ## Batches -/

namespace Writer

@[simp] theorem lines_nil : lines [] = [] := rfl

theorem lines_append (a b : List Record) : lines (a ++ b) = lines a ++ lines b := List.flatMap_append

theorem line_ne_nil (r : Record) : r.line ≠ [] := by
  intro h
  have := congrArg List.length h
  simp [Record.line, Utf8.encode, String.utf8EncodeChar] at this

theorem lines_ne_nil {records : List Record} (h : records ≠ []) : lines records ≠ [] := by
  obtain ⟨r, rest, rfl⟩ := List.exists_cons_of_ne_nil h
  intro hl
  exact line_ne_nil r (List.append_eq_nil_iff.mp hl).1

theorem flush_stream (w : Writer) : w.flush.2.stream = w.stream.flush.2 := rfl

/-- What came of a batch: all its lines are in the stream and it is written, or a failure
    left a prefix of them there, all of them when it was the flush that failed. -/
theorem writeBatch_cases (w : Writer) (records : List Record) :
    ((w.writeBatch records).1 = .ok records.length ∧
      (w.writeBatch records).2.stream.bytes = w.stream.bytes ++ lines records ∧
      (w.writeBatch records).2.linesWritten = w.linesWritten + records.length) ∨
    ∃ e part, (w.writeBatch records).1 = .error e ∧
      (w.writeBatch records).2.stream.bytes = w.stream.bytes ++ part ∧
      (w.writeBatch records).2.linesWritten = w.linesWritten ∧
      part = (offer w.stream.writes (lines records)).accepted ∧ (part = lines records ↔ e = .flush) := by
  unfold writeBatch
  rw [Stream.writeAll_eq]
  have hacc := offer_error_none_iff w.stream.writes (lines records)
  have hne := offer_error_ne_flush w.stream.writes (lines records)
  cases he : (offer w.stream.writes (lines records)).error with
  | some e =>
    refine Or.inr ⟨e, _, rfl, Stream.took_bytes _ _, rfl, rfl, ?_⟩
    rw [← hacc, he]
    constructor
    · intro h; cases h
    · rintro rfl; exact absurd he hne
  | none =>
    have hall := hacc.mp he
    have hbytes := (w.stream.took (offer w.stream.writes (lines records))).flush_bytes
    rw [Stream.took_bytes, hall] at hbytes
    rcases hf : (w.stream.took (offer w.stream.writes (lines records))).flush with ⟨_ | _, after⟩
    · rename_i e
      have hflush : e = .flush := Stream.flush_error (by rw [hf])
      rw [hf] at hbytes
      exact Or.inr ⟨e, _, by simp [hf], by simpa [hf, hall] using hbytes, by simp [hf], rfl, by simp [hall, hflush]⟩
    · rw [hf] at hbytes
      exact Or.inl ⟨by simp [hf], by simpa [hf] using hbytes, by simp [hf]⟩

theorem writeBatch_ok {w after : Writer} {records : List Record} {n : Nat}
    (h : w.writeBatch records = (.ok n, after)) :
    n = records.length ∧ after.stream.bytes = w.stream.bytes ++ lines records ∧
      after.linesWritten = w.linesWritten + n := by
  rcases w.writeBatch_cases records with ⟨hok, hbytes, hlines⟩ | ⟨e, part, herror, -⟩
  · rw [h] at hok hbytes hlines
    cases hok
    exact ⟨rfl, hbytes, hlines⟩
  · rw [h] at herror
    cases herror

theorem writeBatch_error {w after : Writer} {records : List Record} {e : StreamError}
    (h : w.writeBatch records = (.error e, after)) :
    after.stream.bytes = w.stream.bytes ++ (offer w.stream.writes (lines records)).accepted ∧
      after.linesWritten = w.linesWritten ∧
      ((offer w.stream.writes (lines records)).accepted = lines records ↔ e = .flush) := by
  rcases w.writeBatch_cases records with ⟨hok, -⟩ | ⟨e', part, herror, hbytes, hlines, rfl, hiff⟩
  · rw [h] at hok
    cases hok
  · rw [h] at herror hbytes hlines
    cases herror
    exact ⟨hbytes, hlines, hiff⟩

theorem writeBatch_neverFails {w : Writer} (h : w.stream.NeverFails) (records : List Record) :
    (w.writeBatch records).1 = .ok records.length ∧ (w.writeBatch records).2.stream.NeverFails := by
  obtain ⟨hw, hs⟩ := h.writeAll (lines records)
  obtain ⟨hf, hs'⟩ := hs.flush
  unfold writeBatch
  rcases he : w.stream.writeAll (lines records) with ⟨r, s⟩
  rw [he] at hw hs hf hs'
  simp only at hw hs hf hs'
  subst hw
  rcases hg : s.flush with ⟨r', s'⟩
  rw [hg] at hf hs'
  simp only at hf hs'
  subst hf
  simp [hg, hs']

end Writer

end ExpertRouting
