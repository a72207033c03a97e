/-
  ExpertRouting.Sink.Stream — a byte stream that may fail, as a value.

  A stream has accepted some bytes and knows how it will answer: `writes` and `flushes` are
  the replies still to come, and beyond their end everything succeeds. So a stream that
  never fails has no replies left, and every behaviour of a disk is some list of them.

  `offer` hands a buffer over until all of it is accepted: a short write goes on with the
  rest, an interrupted one is tried again, and a write that accepts nothing or fails
  ends it. What was accepted before stays accepted. An empty buffer makes no call.
-/

namespace ExpertRouting

inductive WriteReply where
  /-- It accepts the whole buffer. -/
  | all
  /-- It accepts this many bytes at most. -/
  | short (n : Nat)
  /-- It was interrupted and accepted nothing. -/
  | interrupted
  /-- It has no room. -/
  | full
  deriving DecidableEq, Repr

inductive FlushReply where
  | done
  | failed
  deriving DecidableEq, Repr

inductive StreamError where
  | full
  /-- A write accepted no byte. -/
  | stalled
  | flush
  deriving DecidableEq, Repr

def StreamError.message : StreamError → String
  | .full => "disk full"
  | .stalled => "failed to write whole buffer"
  | .flush => "flush failed"

structure Stream where
  /-- The accepted bytes, newest first. -/
  newestFirst : List UInt8 := []
  /-- Replies to the writes to come. -/
  writes : List WriteReply := []
  /-- Replies to the flushes to come. -/
  flushes : List FlushReply := []
  writeCalls : Nat := 0
  flushCalls : Nat := 0
  deriving DecidableEq, Repr

structure Offer where
  /-- The bytes accepted. -/
  accepted : List UInt8
  /-- The calls made. -/
  calls : Nat
  /-- The replies left. -/
  writes : List WriteReply
  error : Option StreamError
  deriving DecidableEq, Repr

/-- One more call before it, which accepted `bytes`. -/
def Offer.after (bytes : List UInt8) (o : Offer) : Offer :=
  { o with accepted := bytes ++ o.accepted, calls := o.calls + 1 }

/-- Hands over a buffer until it is accepted or a write fails. -/
def offer : List WriteReply → List UInt8 → Offer
  | replies, [] => ⟨[], 0, replies, none⟩
  | [], b :: buffer => ⟨b :: buffer, 1, [], none⟩
  | .all :: replies, b :: buffer => ⟨b :: buffer, 1, replies, none⟩
  | .full :: replies, _ :: _ => ⟨[], 1, replies, some .full⟩
  | .interrupted :: replies, b :: buffer => (offer replies (b :: buffer)).after []
  | .short 0 :: replies, _ :: _ => ⟨[], 1, replies, some .stalled⟩
  | .short (n + 1) :: replies, b :: buffer =>
    (offer replies (buffer.drop n)).after (b :: buffer.take n)

namespace Stream

def bytes (s : Stream) : List UInt8 := s.newestFirst.reverse

def writeAll (s : Stream) (buffer : List UInt8) : Except StreamError Unit × Stream :=
  let o := offer s.writes buffer
  let s := { s with newestFirst := o.accepted.reverse ++ s.newestFirst
                    writes := o.writes
                    writeCalls := s.writeCalls + o.calls }
  match o.error with
  | some e => (.error e, s)
  | none => (.ok (), s)

def flush (s : Stream) : Except StreamError Unit × Stream :=
  let called := { s with flushes := s.flushes.drop 1, flushCalls := s.flushCalls + 1 }
  match s.flushes.head? with
  | some .failed => (.error .flush, called)
  | _ => (.ok (), called)

end Stream

end ExpertRouting
