/-
  ExpertRouting.Capture.Basic — the capture sink.

  Callers hand over a header, batches of routing decisions and the ends of requests; the
  sink writes what belongs to its one logged layer. A call never fails: it reports a
  `Status`, and the model runs on whatever that is.

  The state. The flag `enabled` can be read without the rest; `attached` says that the sink
  still holds its writer. A header sets the shape that later batches must have. A batch
  without a request id gets a fresh one, `r` and a running number, also when it has no rows
  or cannot be written. A batch with an id goes on counting that request's tokens where its
  last written batch stopped, until the request is finished. The counters are meant to have
  64 bits, and as naturals stay below 2^64 in a run of fewer calls and records
  (`Capture.counters_fit`).

  What a batch does, in order: a closed sink is disabled, another layer is filtered, a
  faulty batch is rejected, and only then is an id minted and anything written. The writer
  stays visible after it is released, so that later calls can be seen to leave it alone.
-/

import ExpertRouting.Capture.Tensor
import ExpertRouting.Sink.Writer

namespace ExpertRouting

inductive Status where
  | written (records : Nat)
  | disabled
  | filtered
  | degraded (e : CaptureError)
  deriving DecidableEq, Repr

structure Capture where
  layer : UInt64
  enabled : Bool
  /-- The sink still holds its writer. -/
  attached : Bool
  writer : Writer
  /-- How many request ids have been minted. -/
  minted : Nat := 0
  shape : Option Shape := none
  /-- The tokens written of a request since it was last finished. -/
  offsets : String → Nat := fun _ => 0

inductive Call where
  | header (s : Session)
  | batch (layer : UInt64) (b : Batch) (requestId : Option String)
  | tensors (layer : UInt64) (ids weights : Tensor) (requestId : Option String)
  | finish (requestId : String)
  | close

inductive Reply where
  | status (s : Status)
  | finished
  | closed
  deriving DecidableEq, Repr

namespace Capture

def onto (stream : Stream) (layer : UInt64) : Capture :=
  { layer, enabled := true, attached := true, writer := { stream } }

def disabled (layer : UInt64) : Capture := { layer, enabled := false, attached := false, writer := {} }

def mintedId (n : Nat) : String := "r" ++ decimal n

def setOffset (offsets : String → Nat) (requestId : String) (n : Nat) : String → Nat :=
  fun id => if id = requestId then n else offsets id

def writeHeader (c : Capture) (s : Session) : Status × Capture :=
  if !c.enabled then (.disabled, c)
  else if !s.shape.sound then (.degraded (.invalidHeader s.shape), c)
  else if !c.attached then (.disabled, c)
  else
    match c.writer.writeRecord (.header (s.header c.layer)) with
    | (.error e, writer) => (.degraded (.stream e), { c with writer })
    | (.ok (), writer) => (.written 1, { c with writer, shape := some s.shape })

/-- The request that a batch belongs to, and the number of its first token; a batch without
    an id takes the next one. -/
def owner (c : Capture) : Option String → (String × Nat) × Capture
  | some id => ((id, c.offsets id), c)
  | none => ((mintedId c.minted, 0), { c with minted := c.minted + 1 })

def writeRoutes (c : Capture) (b : Batch) (requestId : Option String) : Status × Capture :=
  let ((id, first), c) := c.owner requestId
  if b.experts.isEmpty then (.written 0, c)
  else
    match c.writer.writeBatch ((b.routes id c.layer first).map .route) with
    | (.error e, writer) => (.degraded (.stream e), { c with writer })
    | (.ok n, writer) =>
      let offsets := if requestId.isSome then setOffset c.offsets id (first + n) else c.offsets
      (.written n, { c with writer, offsets })

def recordBatch (c : Capture) (layer : UInt64) (b : Batch) (requestId : Option String) : Status × Capture :=
  if !c.enabled then (.disabled, c)
  else if layer ≠ c.layer then (.filtered, c)
  else if !c.attached then (.disabled, c)
  else
    match b.fault? c.shape with
    | some e => (.degraded e, c)
    | none => c.writeRoutes b requestId

def recordTensors (c : Capture) (layer : UInt64) (ids weights : Tensor) (requestId : Option String) :
    Status × Capture :=
  if !c.enabled then (.disabled, c)
  else if layer ≠ c.layer then (.filtered, c)
  else
    match Tensor.batch ids weights with
    | .error e => (.degraded e, c)
    | .ok b => c.recordBatch layer b requestId

def finishRequest (c : Capture) (requestId : String) : Capture :=
  { c with offsets := setOffset c.offsets requestId 0 }

/-- Flushes and releases the writer, once. -/
def close (c : Capture) : Capture :=
  { c with enabled := false
           attached := false
           writer := if c.attached then c.writer.flush.2 else c.writer
           offsets := fun _ => 0 }

/-- Closes the sink and hands back its stream, if it was open and the last flush succeeds. -/
def intoInner (c : Capture) : Option Stream × Capture :=
  if c.attached then
    let (result, writer) := c.writer.flush
    (match result with
      | .ok () => some writer.stream
      | .error _ => none,
     { c with enabled := false, attached := false, writer })
  else (none, { c with enabled := false })

def call (c : Capture) : Call → Reply × Capture
  | .header s =>
    let (status, c) := c.writeHeader s
    (.status status, c)
  | .batch layer b requestId =>
    let (status, c) := c.recordBatch layer b requestId
    (.status status, c)
  | .tensors layer ids weights requestId =>
    let (status, c) := c.recordTensors layer ids weights requestId
    (.status status, c)
  | .finish requestId => (.finished, c.finishRequest requestId)
  | .close => (.closed, c.close)

def run (c : Capture) : List Call → List Reply × Capture
  | [] => ([], c)
  | k :: rest =>
    let (reply, c) := c.call k
    let (replies, c) := run c rest
    (reply :: replies, c)

end Capture

end ExpertRouting
