/-
  ExpertRouting.Proofs.Sink.Contract — what a writer promises on any stream.

  A writer is told to write a record, to write a batch, or to flush. All three do what a
  batch does: a record is a batch of one, a flush one of none (`perform_eq`). Of each the
  stream keeps a prefix of the lines, and the batch is good exactly when that prefix is all
  of them and the flush after it succeeds; only then its records count as lines
  (`step_honest`, and over a run `performAll_linesWritten`). What is reported and kept
  depends on the script of the stream only as far as bytes are accepted (`perform_agree`),
  so interruptions in it do not matter (`history_uninterrupted`), nor how many writes a
  buffer takes (`history_split`).

  Encoding has no part in this: the lines of a batch are there for every record, and what
  can fail is the stream.
-/

import ExpertRouting.Proofs.Sink.Script

namespace ExpertRouting.Writer

inductive Op where
  | record (r : Record)
  | batch (records : List Record)
  | flush

def Op.records : Op → List Record
  | .record r => [r]
  | .batch records => records
  | .flush => []

/-- What is reported of `n` records: their number for a batch, nothing otherwise. -/
def Op.report (n : Nat) : Op → Option Nat
  | .batch _ => some n
  | _ => none

def perform (w : Writer) : Op → Except StreamError (Option Nat) × Writer
  | .record r =>
    let (result, w) := w.writeRecord r
    (result.map fun _ => none, w)
  | .batch records =>
    let (result, w) := w.writeBatch records
    (result.map some, w)
  | .flush =>
    let (result, w) := w.flush
    (result.map fun _ => none, w)

structure Step where
  before : Writer
  op : Op

namespace Step

def result (s : Step) : Except StreamError (Option Nat) := (s.before.perform s.op).1

def after (s : Step) : Writer := (s.before.perform s.op).2

def counted (s : Step) : Nat := if s.result.isOk then s.op.records.length else 0

def seen (s : Step) : Except StreamError (Option Nat) × List UInt8 × Nat :=
  (s.result, s.after.stream.bytes, s.after.linesWritten)

end Step

def history (w : Writer) : List Op → List Step
  | [] => []
  | op :: rest => ⟨w, op⟩ :: (w.perform op).2.history rest

def performAll (w : Writer) : List Op → Writer
  | [] => w
  | op :: rest => (w.perform op).2.performAll rest

/-- The buffers that the script of the stream is given in a run, each for one reply. -/
def presentedIn (w : Writer) : List Op → List (List UInt8)
  | [] => []
  | op :: rest => presented w.stream.writes (lines op.records) ++ (w.perform op).2.presentedIn rest

/-- The writer with another script for the writes to come. -/
def withScript (w : Writer) (writes : List WriteReply) : Writer := { w with stream := { w.stream with writes } }

/-! ## One step -/

def offered (w : Writer) (records : List Record) : Offer := offer w.stream.writes (lines records)

def flushed (s : Stream) : Stream := { s with flushes := s.flushes.drop 1, flushCalls := s.flushCalls + 1 }

theorem stream_flush_eq (s : Stream) :
    s.flush = (if s.flushes.head? = some .failed then .error .flush else .ok (), flushed s) := by
  unfold Stream.flush
  split
  · rename_i h; rw [if_pos h]; rfl
  · rename_i h; rw [if_neg h]; rfl

/-- What comes of a batch is what comes of its lines, and then of the flush. -/
theorem writeBatch_eq (w : Writer) (records : List Record) :
    w.writeBatch records = match (w.offered records).error with
      | some e => (.error e, { w with stream := w.stream.took (w.offered records) })
      | none =>
        if w.stream.flushes.head? = some .failed then
          (.error .flush, { w with stream := flushed (w.stream.took (w.offered records)) })
        else (.ok records.length, ⟨flushed (w.stream.took (w.offered records)), w.linesWritten + records.length⟩) := by
  have hflushes : (w.stream.took (w.offered records)).flushes = w.stream.flushes := rfl
  have hoffered : offer w.stream.writes (lines records) = w.offered records := rfl
  unfold writeBatch
  rw [Stream.writeAll_eq, hoffered]
  cases (w.offered records).error with
  | some e => rfl
  | none =>
    simp only [stream_flush_eq, hflushes]
    by_cases h : w.stream.flushes.head? = some .failed
    · simp only [if_pos h]
    · simp only [if_neg h]

theorem writeBatch_stream (w : Writer) (records : List Record) :
    (w.writeBatch records).2.stream.bytes = w.stream.bytes ++ (w.offered records).accepted ∧
      (w.writeBatch records).2.stream.writes = (w.offered records).writes ∧
      (w.writeBatch records).2.stream.writeCalls = w.stream.writeCalls + (w.offered records).calls := by
  have htook := w.stream.took_bytes (w.offered records)
  rw [writeBatch_eq]
  cases (w.offered records).error with
  | some e => exact ⟨htook, rfl, rfl⟩
  | none =>
    by_cases h : w.stream.flushes.head? = some .failed
    · simp only [if_pos h]
      exact ⟨htook, rfl, rfl⟩
    · simp only [if_neg h]
      exact ⟨htook, rfl, rfl⟩

theorem flush_eq_writeBatch (w : Writer) : w.flush = ((w.writeBatch []).1.map fun _ => (), (w.writeBatch []).2) := by
  have hnil : w.stream.took (w.offered []) = w.stream := by simp [Stream.took, offered, offer]
  have hnone : (w.offered []).error = none := by simp [offered, offer]
  rw [writeBatch_eq, hnil, hnone]
  show (w.stream.flush.1, { w with stream := w.stream.flush.2 }) = _
  rw [stream_flush_eq]
  by_cases h : w.stream.flushes.head? = some .failed
  · simp only [if_pos h]; rfl
  · simp only [if_neg h]; rfl

/-- Whatever a writer is told, it writes a batch. -/
theorem perform_eq (w : Writer) (op : Op) :
    w.perform op = ((w.writeBatch op.records).1.map op.report, (w.writeBatch op.records).2) := by
  cases op with
  | record r =>
    show (((w.writeBatch [r]).1.map fun _ => ()).map fun _ => none, (w.writeBatch [r]).2) = _
    unfold Op.records
    cases (w.writeBatch [r]).1 <;> rfl
  | batch records => rfl
  | flush =>
    show (w.flush.1.map fun _ => none, w.flush.2) = _
    rw [flush_eq_writeBatch]
    unfold Op.records
    cases (w.writeBatch []).1 <;> rfl

theorem perform_writes (w : Writer) (op : Op) : (w.perform op).2.stream.writes = (w.offered op.records).writes := by
  rw [perform_eq]
  exact (writeBatch_stream w op.records).2.1

/-- What a step promises on any stream. -/
structure Step.Honest (s : Step) (part : List UInt8) : Prop where
  /-- The stream gains a prefix of the lines. -/
  gains : s.after.stream.bytes = s.before.stream.bytes ++ part
  front : part <+: lines s.op.records
  /-- Only a reply that accepts nothing keeps lines back. -/
  refused : part ≠ lines s.op.records → ∃ r ∈ s.before.stream.writes, ¬ r.Accepting
  /-- One flush follows when all lines are in the stream, and none otherwise. -/
  flushes : s.after.stream.flushCalls = s.before.stream.flushCalls + if part = lines s.op.records then 1 else 0
  /-- The step is good exactly when all lines are in the stream and the flush succeeds. -/
  good : s.result = .ok (s.op.report s.op.records.length) ↔
    part = lines s.op.records ∧ s.before.stream.flushes.head? ≠ some .failed
  /-- Otherwise it reports a failure of the stream. -/
  bad : s.result ≠ .ok (s.op.report s.op.records.length) → ∃ e : StreamError, s.result = .error e
  /-- The records of a good step are counted, and no others. -/
  counts : s.after.linesWritten = s.before.linesWritten + s.counted

theorem step_honest (s : Step) : s.Honest (s.before.offered s.op.records).accepted := by
  obtain ⟨w, op⟩ := s
  have hall : (w.offered op.records).error = none ↔ (w.offered op.records).accepted = lines op.records :=
    offer_error_none_iff _ _
  have hresult : (Step.mk w op).result = (w.writeBatch op.records).1.map op.report := by rw [Step.result, perform_eq]
  have hafter : (Step.mk w op).after = (w.writeBatch op.records).2 := by rw [Step.after, perform_eq]
  have hgains := (writeBatch_stream w op.records).1
  have hfront : (w.offered op.records).accepted <+: lines op.records := offer_takes_front _ _
  rw [← hafter] at hgains
  rw [writeBatch_eq] at hresult hafter
  cases herror : (w.offered op.records).error with
  | some e =>
    have hpart : (w.offered op.records).accepted ≠ lines op.records := by
      rw [ne_eq, ← hall, herror]
      exact Option.some_ne_none e
    simp only [herror] at hresult hafter
    refine ⟨hgains, hfront, offer_refused, ?_, ?_, fun _ => ⟨e, hresult⟩, ?_⟩
    · rw [hafter, if_neg hpart]
      rfl
    · rw [hresult]
      exact iff_of_false (fun h => by cases h) fun h => hpart h.1
    · rw [Step.counted, hresult, hafter]
      rfl
  | none =>
    have hpart := hall.mp herror
    simp only [herror] at hresult hafter
    by_cases hhead : w.stream.flushes.head? = some .failed
    · rw [if_pos hhead] at hresult hafter
      refine ⟨hgains, hfront, offer_refused, ?_, ?_, fun _ => ⟨.flush, hresult⟩, ?_⟩
      · rw [hafter, if_pos hpart]
        rfl
      · rw [hresult]
        exact iff_of_false (fun h => by cases h) fun h => h.2 hhead
      · rw [Step.counted, hresult, hafter]
        rfl
    · rw [if_neg hhead] at hresult hafter
      refine ⟨hgains, hfront, offer_refused, ?_, iff_of_true hresult ⟨hpart, hhead⟩, fun h => absurd hresult h, ?_⟩
      · rw [hafter, if_pos hpart]
        rfl
      · rw [Step.counted, hresult, hafter]
        rfl

/-! ## Writers whose scripts differ -/

/-- Two writers that differ at most in their scripts and in the number of writes made. -/
structure Agree (w w' : Writer) : Prop where
  newestFirst : w.stream.newestFirst = w'.stream.newestFirst
  flushes : w.stream.flushes = w'.stream.flushes
  flushCalls : w.stream.flushCalls = w'.stream.flushCalls
  linesWritten : w.linesWritten = w'.linesWritten

/-- Where the scripts accept the same bytes the step is seen to be the same. -/
theorem perform_agree {w w' : Writer} (h : Agree w w') {op : Op}
    (haccepted : (w.offered op.records).accepted = (w'.offered op.records).accepted)
    (herror : (w.offered op.records).error = (w'.offered op.records).error) :
    (Step.mk w op).seen = (Step.mk w' op).seen ∧ Agree (w.perform op).2 (w'.perform op).2 := by
  have hnewest : (w.offered op.records).accepted.reverse ++ w.stream.newestFirst =
      (w'.offered op.records).accepted.reverse ++ w'.stream.newestFirst := by rw [haccepted, h.newestFirst]
  have hdrop : w.stream.flushes.drop 1 = w'.stream.flushes.drop 1 := by rw [h.flushes]
  have hcalls : w.stream.flushCalls + 1 = w'.stream.flushCalls + 1 := by rw [h.flushCalls]
  have hlines : w.linesWritten + op.records.length = w'.linesWritten + op.records.length := by rw [h.linesWritten]
  have hboth : (w.perform op).1 = (w'.perform op).1 ∧ Agree (w.perform op).2 (w'.perform op).2 := by
    rw [perform_eq, perform_eq, writeBatch_eq, writeBatch_eq, herror, h.flushes]
    cases (w'.offered op.records).error with
    | some e => exact ⟨rfl, hnewest, h.flushes, h.flushCalls, h.linesWritten⟩
    | none =>
      by_cases hhead : w'.stream.flushes.head? = some .failed
      · simp only [if_pos hhead]
        exact ⟨trivial, hnewest, hdrop, hcalls, h.linesWritten⟩
      · simp only [if_neg hhead]
        exact ⟨trivial, hnewest, hdrop, hcalls, hlines⟩
  obtain ⟨hresult, hafter⟩ := hboth
  refine ⟨?_, hafter⟩
  unfold Step.seen Step.result Step.after Stream.bytes
  rw [hresult, hafter.newestFirst, hafter.linesWritten]

/-- Scripts with the same replies but for interruptions are seen to do the same. -/
theorem history_uninterrupted {w w' : Writer} (h : Agree w w')
    (hscript : uninterrupted w.stream.writes = uninterrupted w'.stream.writes) (ops : List Op) :
    (w.history ops).map Step.seen = (w'.history ops).map Step.seen := by
  induction ops generalizing w w' with
  | nil => rfl
  | cons op rest ih =>
    obtain ⟨ha, herr, hw⟩ := offer_uninterrupted w.stream.writes (lines op.records)
    obtain ⟨ha', herr', hw'⟩ := offer_uninterrupted w'.stream.writes (lines op.records)
    rw [hscript] at ha herr hw
    obtain ⟨hseen, hafter⟩ := perform_agree h (ha.symm.trans ha') (herr.symm.trans herr')
    have hleft : uninterrupted (w.perform op).2.stream.writes = uninterrupted (w'.perform op).2.stream.writes := by
      rw [perform_writes, perform_writes]
      exact hw.symm.trans hw'
    rw [history, history, List.map_cons, List.map_cons, hseen, ih hafter hleft]

/-- A reply that takes the buffer it is given may be split into short ones that take it between them. -/
theorem history_split {w w' : Writer} (h : Agree w w') {front back : List WriteReply} {e : WriteReply}
    {sizes : List Nat} {given : List UInt8} (hw : w.stream.writes = front ++ e :: back)
    (hw' : w'.stream.writes = front ++ sizes.map .short ++ back) (he : e.Takes given)
    (hsizes : Shares given.length sizes) {ops : List Op} (hgiven : (w.presentedIn ops)[front.length]? = some given) :
    (w.history ops).map Step.seen = (w'.history ops).map Step.seen := by
  induction ops generalizing w w' front with
  | nil => simp [presentedIn] at hgiven
  | cons op rest ih =>
    have hoffered : w.offered op.records = offer (front ++ e :: back) (lines op.records) := by rw [offered, hw]
    have hoffered' : w'.offered op.records = offer (front ++ sizes.map .short ++ back) (lines op.records) := by
      rw [offered, hw']
    rw [history, history, List.map_cons, List.map_cons]
    rw [presentedIn, hw] at hgiven
    rcases Nat.lt_or_ge front.length (presented (front ++ e :: back) (lines op.records)).length with hlt | hge
    · -- the reply is reached in this step, and what is left behind it is the same
      rw [List.getElem?_append_left hlt] at hgiven
      obtain ⟨ha, herr, hleft', hleft⟩ := offer_split hgiven he hsizes
      rw [← hoffered, ← hoffered'] at ha herr
      obtain ⟨hseen, hafter⟩ := perform_agree h ha.symm herr.symm
      have hsame : (w.perform op).2.stream.writes = (w'.perform op).2.stream.writes := by
        rw [perform_writes, perform_writes, hoffered, hoffered', hleft, hleft']
      rw [hseen, history_uninterrupted hafter (congrArg uninterrupted hsame) rest]
    · -- the step ends before the reply, and leaves both scripts with the same front
      rw [List.getElem?_append_right hge] at hgiven
      have hself := offer_front hge (e :: back)
      have hother := offer_front hge (sizes.map .short ++ back)
      rw [← List.append_assoc, ← hoffered, ← hoffered'] at hother
      rw [← hoffered] at hself
      have haccepted : (w.offered op.records).accepted = (w'.offered op.records).accepted := by rw [hother]
      have herror : (w.offered op.records).error = (w'.offered op.records).error := by rw [hother]
      obtain ⟨hseen, hafter⟩ := perform_agree h haccepted herror
      have hrest : (w.perform op).2.stream.writes =
          front.drop (presented (front ++ e :: back) (lines op.records)).length ++ e :: back := by
        rw [perform_writes, hself]
      have hrest' : (w'.perform op).2.stream.writes =
          front.drop (presented (front ++ e :: back) (lines op.records)).length ++ sizes.map .short ++ back := by
        rw [perform_writes, hother, List.append_assoc]
      rw [hseen, ih hafter hrest hrest']
      rwa [List.length_drop]

/-! ## A run -/

/-- The lines a writer counts are those of its good steps. -/
theorem performAll_linesWritten (w : Writer) (ops : List Op) :
    (w.performAll ops).linesWritten = w.linesWritten + ((w.history ops).map Step.counted).sum := by
  induction ops generalizing w with
  | nil => rfl
  | cons op rest ih =>
    have hstep : (w.perform op).2.linesWritten = w.linesWritten + (Step.mk w op).counted :=
      (step_honest ⟨w, op⟩).counts
    rw [performAll, ih, hstep, history, List.map_cons, List.sum_cons, Nat.add_assoc]

theorem performAll_writeCalls (w : Writer) (ops : List Op) :
    (w.performAll ops).stream.writeCalls = w.stream.writeCalls + (w.presentedIn ops).length := by
  induction ops generalizing w with
  | nil => rfl
  | cons op rest ih =>
    have hstep : (w.perform op).2.stream.writeCalls =
        w.stream.writeCalls + (presented w.stream.writes (lines op.records)).length := by
      rw [perform_eq, presented_length]
      exact (writeBatch_stream w op.records).2.2
    rw [performAll, ih, hstep, presentedIn, List.length_append, Nat.add_assoc]

/-- On any stream, every step leaves a prefix of its lines there, a proper one only where a
    reply accepts nothing, and is good exactly when all of them are there and the flush
    succeeds. The lines counted are those of the good steps, and neither interruptions nor
    the splitting of a write that takes its buffer whole is seen. -/
theorem writes_are_prefixes_counted_when_delivered (w : Writer) (ops : List Op) :
    (∀ s ∈ w.history ops, ∃ part, s.Honest part) ∧
      (w.performAll ops).linesWritten = w.linesWritten + ((w.history ops).map Step.counted).sum ∧
      (w.performAll ops).stream.writeCalls = w.stream.writeCalls + (w.presentedIn ops).length ∧
      (∀ script, uninterrupted script = uninterrupted w.stream.writes →
        ((w.withScript script).history ops).map Step.seen = (w.history ops).map Step.seen) ∧
      ∀ front e back given sizes, w.stream.writes = front ++ e :: back →
        (w.presentedIn ops)[front.length]? = some given → e.Takes given → Shares given.length sizes →
        ((w.withScript (front ++ sizes.map .short ++ back)).history ops).map Step.seen =
          (w.history ops).map Step.seen := by
  have hagree (script : List WriteReply) : Agree w (w.withScript script) := ⟨rfl, rfl, rfl, rfl⟩
  refine ⟨fun s _ => ⟨_, step_honest s⟩, w.performAll_linesWritten ops, w.performAll_writeCalls ops, ?_, ?_⟩
  · intro script hscript
    exact (history_uninterrupted (hagree script) hscript.symm ops).symm
  · intro front e back given sizes hw hgiven he hsizes
    exact (history_split (hagree _) hw rfl he hsizes hgiven).symm

/-- A batch that is cut short, a good one, and a flush that fails: neither two interruptions
    nor the splitting of the write of the good one is seen. -/
theorem a_split_write_is_not_seen :
    let r : Record := .route ⟨"r0", 0, 0, [1], []⟩
    let ops := [Op.batch [r, r], .record r, .flush]
    let w : Writer := { stream := { writes := [.short 9, .full, .all], flushes := [.done, .failed] } }
    (w.history ops).map Step.result = [.error .full, .ok none, .error .flush] ∧
      ((w.withScript [.interrupted, .short 9, .full, .interrupted, .all]).history ops).map Step.seen =
        (w.history ops).map Step.seen ∧
      ((w.withScript [.short 9, .full, .short 5, .short 95]).history ops).map Step.seen =
        (w.history ops).map Step.seen := by
  intro r ops w
  obtain ⟨-, -, -, hinterrupted, hsplit⟩ := writes_are_prefixes_counted_when_delivered w ops
  have hresults : (w.history ops).map Step.result = [.error .full, .ok none, .error .flush] := rfl
  have hgiven : (w.presentedIn ops)[2]? = some (lines [r]) := rfl
  have hshares : Shares (lines [r]).length [5, 95] := ⟨by decide, by decide +kernel, by decide +kernel⟩
  have hpart := hsplit [.short 9, .full] .all [] (lines [r]) [5, 95] rfl hgiven trivial hshares
  exact ⟨hresults, hinterrupted [.interrupted, .short 9, .full, .interrupted, .all] rfl, hpart⟩

end ExpertRouting.Writer
