/-
  ExpertRouting.Proofs.Capture.Counters — the counters of a sink stay within 64 bits.

  A sink counts the ids it has minted, the lines it has written and the written tokens of
  every request. A call mints at most one id (`call_minted`), and each record it reports as
  written adds one line and at most one token (`call_linesWritten`, `call_offsets_le`). So the
  counters of a run stay below its calls and its records, and none of them comes to 2^64 in a
  run that has fewer of both (`counters_fit`).
-/

import ExpertRouting.Proofs.Capture.Minting

namespace ExpertRouting.Capture

/-- A call adds the records that it reports as written to the lines. -/
theorem call_linesWritten (c : Capture) (k : Call) :
    (c.call k).2.writer.linesWritten = c.writer.linesWritten + (Entry.mk c k).written.length := by
  have hcount := count_eq_length c k
  rw [← hcount, Entry.reply]
  have he := call_effect c k
  generalize (c.call k).1 = reply at he ⊢
  generalize (c.call k).2 = after at he ⊢
  cases he with
  | refused _ s hs =>
    rw [Status.count_of_refusal hs]
    rfl
  | header s w he ha hs hw => exact (Writer.writeBatch_ok hw).2.2
  | headerLost s w e he ha hs hw => exact (Writer.writeBatch_error hw).2.1
  | empty _ sub ht hb => rfl
  | batch _ sub w ht hb hw => exact (Writer.writeBatch_ok hw).2.2
  | batchLost _ sub w e ht hb hw => exact (Writer.writeBatch_error hw).2.1
  | finished requestId => rfl
  | closed =>
    unfold close
    by_cases ha : c.attached = true
    · simp [ha, Writer.flush, Reply.count]
    · simp [ha, Reply.count]

theorem run_linesWritten (c : Capture) (calls : List Call) :
    (c.run calls).2.writer.linesWritten = c.writer.linesWritten + (c.runRecords calls).length := by
  induction calls generalizing c with
  | nil => rfl
  | cons k rest ih =>
    show ((c.call k).2.run rest).2.writer.linesWritten = _
    rw [ih, call_linesWritten, runRecords_cons, List.length_append, Nat.add_assoc]

/-- A call adds at most the records that it reports as written to the tokens of a request. -/
theorem call_offsets_le (c : Capture) (k : Call) (id : String) :
    (c.call k).2.offsets id ≤ c.offsets id + (Entry.mk c k).written.length := by
  rw [← count_eq_length c k, Entry.reply]
  have he := call_effect c k
  generalize (c.call k).1 = reply at he ⊢
  generalize (c.call k).2 = after at he ⊢
  cases he with
  | batch _ sub w ht hb hw =>
    cases hsub : sub.requestId with
    | none =>
      simp only [counted, hsub]
      exact Nat.le_add_right _ _
    | some requestId =>
      simp only [counted, hsub, Option.isSome_some, if_true, origin_some, setOffset]
      split
      · rename_i hid
        rw [hid]
        exact Nat.le_refl _
      · exact Nat.le_add_right _ _
  | finished requestId =>
    simp only [finishRequest, setOffset]
    split
    · exact Nat.zero_le _
    · exact Nat.le_add_right _ _
  | closed => exact Nat.zero_le _
  | _ => exact Nat.le_add_right _ _

theorem run_offsets_le (c : Capture) (calls : List Call) (id : String) :
    (c.run calls).2.offsets id ≤ c.offsets id + (c.runRecords calls).length := by
  induction calls generalizing c with
  | nil => exact Nat.le_refl _
  | cons k rest ih =>
    have hfirst := call_offsets_le c k id
    have hrest : (c.run (k :: rest)).2.offsets id ≤ _ := ih (c.call k).2
    rw [runRecords_cons, List.length_append]
    omega

/-- A run from a fresh sink of fewer than 2^64 calls that writes fewer than 2^64 records: no counter
    of the sink comes to 2^64, whatever the stream does. -/
theorem counters_fit (stream : Stream) (layer : UInt64) {calls : List Call} (hcalls : calls.length < UInt64.size)
    (hrecords : ((onto stream layer).runRecords calls).length < UInt64.size) :
    let after := ((onto stream layer).run calls).2
    after.minted < UInt64.size ∧ after.writer.linesWritten < UInt64.size ∧ ∀ id, after.offsets id < UInt64.size := by
  intro after
  refine ⟨?_, ?_, fun id => ?_⟩
  · have hlength : ((onto stream layer).journal calls).length = calls.length := by
      rw [← List.length_map (f := Entry.call), journal_calls]
    have hminted : after.minted = 0 + ((onto stream layer).journal calls).countP Entry.mints :=
      run_minted (onto stream layer) calls
    have hcount := List.countP_le_length (p := Entry.mints) (l := (onto stream layer).journal calls)
    omega
  · have hlines : after.writer.linesWritten = 0 + ((onto stream layer).runRecords calls).length :=
      run_linesWritten (onto stream layer) calls
    omega
  · have htokens : after.offsets id ≤ 0 + ((onto stream layer).runRecords calls).length :=
      run_offsets_le (onto stream layer) calls id
    omega

end ExpertRouting.Capture
