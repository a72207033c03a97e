/-
  ExpertRouting.Capture.Batch — one batch of routing decisions, and whether it is sound.

  A batch has a row of experts and a row of weights for every token. `fault?` holds it
  against the shape of the header, if one was written: as many rows of either kind, and row
  by row as many weights as experts, the width of the shape (without a header, the width of
  the first row), no expert beyond the last, and only finite weights. The first fault of the
  first faulty row is the cause.
-/

import ExpertRouting.Capture.Shape
import ExpertRouting.Sink.Stream

namespace ExpertRouting

inductive CaptureError where
  | stream (e : StreamError)
  | tensorRank (shape : List Nat)
  | invalidHeader (shape : Shape)
  | rowCount (experts weights : Nat)
  | rowWidth (row experts weights : Nat)
  | topK (row width topK : Nat)
  | expertOutOfRange (row : Nat) (expert : Int) (numExperts : Nat)
  | nonFiniteWeight (row column : Nat)
  deriving DecidableEq, Repr

def CaptureError.message : CaptureError → String
  | .stream e => s!"routing trace I/O failed: {e.message}"
  | .tensorRank shape => s!"expected a [tokens, top_k] tensor, got shape {decimalList shape}"
  | .invalidHeader shape =>
    s!"invalid header: top_k {decimal shape.topK.toNat} with {decimal shape.numExperts.toNat} experts"
  | .rowCount experts weights => s!"batch has {decimal experts} id rows but {decimal weights} weight rows"
  | .rowWidth row experts weights =>
    s!"row {decimal row}: {decimal experts} expert ids but {decimal weights} weights"
  | .topK row width k => s!"row {decimal row}: width {decimal width} does not match top_k {decimal k}"
  | .expertOutOfRange row expert numExperts =>
    s!"row {decimal row}: expert id {decimalInt expert} is outside 0..{decimal numExperts}"
  | .nonFiniteWeight row column => s!"row {decimal row}: weight {decimal column} is not finite"

structure Batch where
  experts : List (List UInt32)
  weights : List (List Real64)
  deriving DecidableEq

namespace Batch

def ofWeights {f : Format} (experts : List (List UInt32)) (weights : List (List (Binary f))) : Batch :=
  ⟨experts, weights.map (·.map (Binary.convert binary64))⟩

def rows (b : Batch) : List (List UInt32 × List Real64) := b.experts.zip b.weights

/-- The first fault of a row that should have this width. -/
def rowFault? (shape : Option Shape) (width row : Nat) (experts : List UInt32) (weights : List Real64) :
    Option CaptureError :=
  if experts.length ≠ weights.length then some (.rowWidth row experts.length weights.length)
  else if experts.length ≠ width then some (.topK row experts.length width)
  else
    match shape.bind fun s => (experts.find? fun e => s.numExperts.toNat ≤ e.toNat).map (·, s) with
    | some (e, s) => some (.expertOutOfRange row e.toNat s.numExperts.toNat)
    | none => (weights.findIdx? fun w => !w.isFinite).map (.nonFiniteWeight row)

/-- The first fault of rows counted from `row`; without a width the first row sets it. -/
def rowsFault? (shape : Option Shape) (width : Option Nat) (row : Nat) :
    List (List UInt32 × List Real64) → Option CaptureError
  | [] => none
  | (experts, weights) :: rest =>
    let wanted := width.getD experts.length
    (rowFault? shape wanted row experts weights).or (rowsFault? shape (some wanted) (row + 1) rest)

def fault? (shape : Option Shape) (b : Batch) : Option CaptureError :=
  if b.experts.length ≠ b.weights.length then some (.rowCount b.experts.length b.weights.length)
  else rowsFault? shape (shape.map (·.topK.toNat)) 0 b.rows

def routes (b : Batch) (requestId : String) (layer : UInt64) (first : Nat) : List Route :=
  b.rows.zipIdx.map fun ((experts, weights), row) =>
    { requestId
      token := UInt64.ofNat (first + row)
      layer
      experts
      weights := weights.map roundWeight }

end Batch

end ExpertRouting
