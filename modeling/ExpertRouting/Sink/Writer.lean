/-
  ExpertRouting.Sink.Writer — records as lines of a stream.

  A batch is turned into its lines first, and they are handed to the stream as one buffer,
  which is then flushed. The lines of a batch count as written when both succeed.
-/

import ExpertRouting.Sink.Stream
import ExpertRouting.Trace.Record

namespace ExpertRouting

structure Writer where
  stream : Stream := {}
  linesWritten : Nat := 0
  deriving DecidableEq, Repr

namespace Writer

def lines (records : List Record) : List UInt8 := records.flatMap Record.line

def flush (w : Writer) : Except StreamError Unit × Writer :=
  let (result, stream) := w.stream.flush
  (result, { w with stream })

/-- Writes a batch and flushes; the number of records on success. -/
def writeBatch (w : Writer) (records : List Record) : Except StreamError Nat × Writer :=
  match w.stream.writeAll (lines records) with
  | (.error e, stream) => (.error e, { w with stream })
  | (.ok (), stream) =>
    match stream.flush with
    | (.error e, stream) => (.error e, { w with stream })
    | (.ok (), stream) => (.ok records.length, ⟨stream, w.linesWritten + records.length⟩)

def writeRecord (w : Writer) (record : Record) : Except StreamError Unit × Writer :=
  let (result, w) := w.writeBatch [record]
  (result.map fun _ => (), w)

end Writer

end ExpertRouting
