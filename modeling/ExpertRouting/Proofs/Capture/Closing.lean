/-
  ExpertRouting.Proofs.Capture.Closing — a closed sink stays closed.

  Whether a sink is open is kept twice, as the flag that anyone may read and as the writer
  that the sink still holds. Calls keep the two in step, also when a flush fails
  (`call_coherent`), so the flag tells the truth of every sink in use. A sink without its
  writer answers every call without doing anything, and is the same sink afterwards
  (`closed_call`, `closed_run`). A sink that goes out of use is closed once more; like any
  other call that reaches the stream only if the sink was open till then.
-/

import ExpertRouting.Capture.Settings
import ExpertRouting.Proofs.Capture.Journal

namespace ExpertRouting

def Call.turnedDown : Call → Reply
  | .finish _ => .finished
  | .close => .closed
  | _ => .status .disabled

namespace Capture

/-- A sink as it was made, on a stream, without one or for a file, and after any calls. -/
inductive InUse : Capture → Prop
  | onto (stream : Stream) (layer : UInt64) : InUse (onto stream layer)
  | disabled (layer : UInt64) : InUse (disabled layer)
  | opened (s : Settings) (fs : Files) : InUse (openFile s fs).1
  | call {c : Capture} (k : Call) : InUse c → InUse (c.call k).2

/-- The flag agrees with the writer, and a sink without a writer remembers no tokens. -/
structure Coherent (c : Capture) : Prop where
  flag : c.enabled = c.attached
  forgotten : c.attached = false → c.offsets = fun _ => 0

structure Closed (c : Capture) : Prop where
  enabled : c.enabled = false
  attached : c.attached = false
  offsets : c.offsets = fun _ => 0

theorem closed_iff (c : Capture) : c.Closed ↔ c.Coherent ∧ c.attached = false := by
  constructor
  · intro h
    exact ⟨⟨h.enabled.trans h.attached.symm, fun _ => h.offsets⟩, h.attached⟩
  · rintro ⟨hc, ha⟩
    exact ⟨hc.flag.trans ha, ha, hc.forgotten ha⟩

/-! ## Sinks in use -/

theorem close_closed (c : Capture) : c.close.Closed := ⟨rfl, rfl, rfl⟩

theorem onto_coherent (stream : Stream) (layer : UInt64) : (onto stream layer).Coherent :=
  ⟨rfl, fun h => by cases h⟩

theorem disabled_closed (layer : UInt64) : (disabled layer).Closed := ⟨rfl, rfl, rfl⟩

theorem openFile_coherent (s : Settings) (fs : Files) : (openFile s fs).1.Coherent := by
  have hdisabled := ((closed_iff _).mp (disabled_closed s.layer)).1
  unfold openFile
  split
  · exact hdisabled
  · split
    · exact onto_coherent _ _
    · exact hdisabled

/-- Calls that reach the writer are made on open sinks, and leave them open. -/
theorem call_coherent {c : Capture} (h : c.Coherent) (k : Call) : (c.call k).2.Coherent := by
  have hopen : ∀ {d : Capture}, c.attached = true → d.enabled = c.enabled → d.attached = c.attached → d.Coherent := by
    intro d ha henabled hattached
    refine ⟨henabled.trans (h.flag.trans hattached.symm), fun hd => ?_⟩
    rw [hattached, ha] at hd
    cases hd
  have he := call_effect c k
  generalize (c.call k).1 = reply at he
  generalize (c.call k).2 = after at he ⊢
  cases he with
  | refused _ s hs => exact h
  | header s w henabled ha hs hw => exact hopen ha rfl rfl
  | headerLost s w e henabled ha hs hw => exact hopen ha rfl rfl
  | empty _ sub ht hb => exact hopen ht.attached rfl rfl
  | batch _ sub w ht hb hw => exact hopen ht.attached rfl rfl
  | batchLost _ sub w e ht hb hw => exact hopen ht.attached rfl rfl
  | finished requestId =>
    refine ⟨h.flag, fun ha => ?_⟩
    have hoffsets := h.forgotten ha
    funext id
    simp [finishRequest, setOffset, hoffsets]
  | closed => exact ((closed_iff _).mp c.close_closed).1

theorem InUse.coherent {c : Capture} (h : c.InUse) : c.Coherent := by
  induction h with
  | onto stream layer => exact onto_coherent stream layer
  | disabled layer => exact ((closed_iff _).mp (disabled_closed layer)).1
  | opened s fs => exact openFile_coherent s fs
  | call k _ ih => exact call_coherent ih k

theorem InUse.run {c : Capture} (h : c.InUse) (calls : List Call) : (c.run calls).2.InUse :=
  run_keeps (fun _ k hc => hc.call k) c calls h

/-! ## Closed sinks -/

theorem closed_call {c : Capture} (h : c.Closed) (k : Call) : c.call k = (k.turnedDown, c) := by
  have henabled := h.enabled
  have hoffsets := h.offsets
  cases k with
  | header s => simp [call, writeHeader, Call.turnedDown, henabled]
  | batch layer b requestId => simp [call, recordBatch, Call.turnedDown, henabled]
  | tensors layer ids weights requestId => simp [call, recordTensors, Call.turnedDown, henabled]
  | finish requestId =>
    have hsame : setOffset c.offsets requestId 0 = c.offsets := by
      funext id
      simp [setOffset, hoffsets]
    rw [call, finishRequest, hsame]
    rfl
  | close =>
    have hsame : c.close = c := by
      obtain ⟨layer, enabled, attached, writer, minted, shape, offsets⟩ := c
      obtain ⟨rfl, rfl, rfl⟩ := h
      rfl
    rw [call, hsame]
    rfl

theorem closed_run {c : Capture} (h : c.Closed) (calls : List Call) : c.run calls = (calls.map Call.turnedDown, c) := by
  induction calls with
  | nil => rfl
  | cons k calls ih => rw [run_cons, closed_call h, ih, List.map_cons]

theorem closed_intoInner {c : Capture} (h : c.Closed) : c.intoInner = (none, c) := by
  obtain ⟨layer, enabled, attached, writer, minted, shape, offsets⟩ := c
  obtain ⟨rfl, rfl, rfl⟩ := h
  rfl

/-! ## The last flush -/

theorem flush_calls (s : Stream) : s.flush.2.flushCalls = s.flushCalls + 1 ∧ s.flush.2.writeCalls = s.writeCalls := by
  unfold Stream.flush
  split
  · exact ⟨rfl, rfl⟩
  · exact ⟨rfl, rfl⟩

theorem close_stream {c : Capture} (h : c.attached = true) : c.close.writer.stream = c.writer.stream.flush.2 := by
  rw [close, if_pos h]
  rfl

theorem intoInner_stream {c : Capture} (h : c.attached = true) :
    c.intoInner.2.writer.stream = c.writer.stream.flush.2 ∧ c.intoInner.2.attached = false := by
  rw [intoInner, if_pos h]
  exact ⟨rfl, rfl⟩

/-- A stream is handed back when its last flush succeeds, as it is after that. -/
theorem intoInner_eq_some_iff {c : Capture} (h : c.attached = true) (s : Stream) :
    c.intoInner.1 = some s ↔ c.writer.stream.flush = (.ok (), s) := by
  rw [intoInner, if_pos h]
  rcases hflush : c.writer.stream.flush with ⟨e | _, after⟩
  · simp [Writer.flush, hflush]
  · simp [Writer.flush, hflush]

/-- A sink in use, on any stream or on none. It is enabled exactly while it holds its writer.
    While it does, closing makes one flush and no write, whether the flush succeeds or not;
    taking the sink apart makes one flush too, hands the stream back exactly if that succeeds,
    and leaves nothing to flush when the rest goes out of use. Once closed, or never opened, it
    answers whatever calls come with `disabled`, or with what the end of a request and another
    close are always answered; it is the same sink after them, with the same calls made on the
    stream and the same number of ids minted, has no stream to hand back, and makes no call on
    it when it goes out of use. -/
theorem closed_is_final {c : Capture} (h : c.InUse) :
    (c.enabled = true ↔ c.attached = true) ∧
    (c.attached = true →
      c.close.writer.stream.flushCalls = c.writer.stream.flushCalls + 1 ∧
      c.close.writer.stream.writeCalls = c.writer.stream.writeCalls ∧ c.close.minted = c.minted ∧
      (∀ s, c.intoInner.1 = some s ↔ c.writer.stream.flush = (.ok (), s)) ∧
      c.intoInner.2.close.writer.stream.flushCalls = c.writer.stream.flushCalls + 1) ∧
    ∀ closed, closed = c.close ∨ (c.attached = false ∧ closed = c) → ∀ calls,
      (closed.run calls).1 = calls.map Call.turnedDown ∧ (closed.run calls).2 = closed ∧
      closed.enabled = false ∧ closed.intoInner.1 = none ∧ closed.close = closed := by
  have hcoherent := h.coherent
  refine ⟨by rw [hcoherent.flag], fun ha => ?_, ?_⟩
  · obtain ⟨hflushes, hwrites⟩ := flush_calls c.writer.stream
    obtain ⟨hstream, hattached⟩ := intoInner_stream ha
    have hrest : c.intoInner.2.close.writer = c.intoInner.2.writer := by
      rw [close, if_neg (by rw [hattached]; decide)]
    rw [close_stream ha, hrest, hstream]
    exact ⟨hflushes, hwrites, rfl, intoInner_eq_some_iff ha, hflushes⟩
  · intro closed hclosed calls
    have hc : closed.Closed := by
      rcases hclosed with rfl | ⟨ha, rfl⟩
      · exact c.close_closed
      · exact (closed_iff _).mpr ⟨hcoherent, ha⟩
    have hclose : closed.close = closed := congrArg Prod.snd (closed_call hc .close)
    rw [closed_run hc, closed_intoInner hc]
    exact ⟨rfl, rfl, hc.enabled, rfl, hclose⟩

/-- A sink with a header whose last flush fails: it hands no stream back, and once it is closed a
    header, a batch of another layer, tensors that hold none and another close change nothing. -/
theorem a_failing_last_flush_closes_all_the_same :
    let session : Session := { modelId := "m", shape := ⟨2, 4⟩, device := "cpu" }
    let c := ((onto { flushes := [.done, .failed] } 0).run [.header session]).2
    let calls : List Call := [.header session, .batch 7 ⟨[[2, 0]], []⟩ none, .finish "a",
      .tensors 0 ⟨[1], .u32 [2], rfl⟩ ⟨[1], .u32 [0], rfl⟩ (some "a"), .close, .batch 0 ⟨[], []⟩ none]
    c.attached = true ∧ c.enabled = true ∧ c.writer.stream.flushCalls = 1 ∧
      c.close.writer.stream.flushCalls = 2 ∧ c.intoInner.1 = none ∧
      (c.close.run calls).1 = [.status .disabled, .status .disabled, .finished, .status .disabled, .closed,
        .status .disabled] ∧
      (c.close.run calls).2 = c.close := by
  intro session c calls
  have hopen : c.attached = true := by decide +kernel
  have hcount : c.writer.stream.flushCalls = 1 := by decide +kernel
  obtain ⟨hflag, hlast, hfinal⟩ := closed_is_final ((InUse.onto { flushes := [.done, .failed] } 0).run [.header session])
  obtain ⟨hflushes, -, -, hhanded, -⟩ := hlast hopen
  obtain ⟨hreplies, hsame, -⟩ := hfinal c.close (Or.inl rfl) calls
  refine ⟨hopen, hflag.mpr hopen, hcount, hflushes.trans (by rw [hcount]), ?_, hreplies, hsame⟩
  have hfails : c.writer.stream.flushes.head? = some .failed := by decide +kernel
  refine Option.eq_none_iff_forall_ne_some.mpr fun s hs => ?_
  have hflush := (hhanded s).mp hs
  rw [Stream.flush, hfails] at hflush
  cases hflush

end Capture

end ExpertRouting
