/-
  ExpertRouting.Trace.Basic — a whole trace: one header and the routes under it.

  A trace file has one record a line; blank lines count and hold nothing, and the header
  may stand on any line. `parse` takes the lines in order and stops at the first that is no
  text, no record or a second header, with its number counted from one; only then can the
  header be missing. `verify` holds every route against the header, in order, and names
  the first one that does not fit and the first reason.
-/

import ExpertRouting.Files
import ExpertRouting.Text.Blank
import ExpertRouting.Text.Lines
import ExpertRouting.Trace.Decode

namespace ExpertRouting

structure Trace where
  header : Header
  routes : List Route
  deriving DecidableEq

namespace Trace

inductive ReadError where
  | file (e : FileError)
  | notText
  deriving DecidableEq, Repr

def ReadError.message : ReadError → String
  | .file e => e.message
  | .notText => "stream did not contain valid UTF-8"

inductive Misfit where
  | weightCount (experts weights : Nat)
  | width (width : Nat) (topK : UInt64)
  | expert (expert : UInt32) (numExperts : UInt64)
  | layer (layer : UInt64) (logged : List UInt64)
  deriving DecidableEq, Repr

def Misfit.message : Misfit → String
  | .weightCount experts weights => s!"{decimal experts} expert ids but {decimal weights} weights"
  | .width n topK => s!"width {decimal n} does not match top_k {decimal topK.toNat}"
  | .expert e numExperts => s!"expert id {decimal e.toNat} is outside 0..{decimal numExperts.toNat}"
  | .layer l logged => s!"layer {decimal l.toNat} is not in layers_logged {decimalList (logged.map UInt64.toNat)}"

inductive Error where
  | unreadable (cause : ReadError)
  /-- The line is not a record. -/
  | malformed (line : Nat) (fault : Json.Fault)
  | missingHeader
  | duplicateHeader (line : Nat)
  /-- The route at this index does not fit the header. -/
  | inconsistent (index : Nat) (misfit : Misfit)
  deriving DecidableEq, Repr

/-- The first words of a malformed line's message; the decoder's own words follow them. -/
def malformedPreface (line : Nat) : String := s!"line {decimal line}: malformed routing record"

def Error.message : Error → String
  | .unreadable cause => s!"failed to read routing trace: {cause.message}"
  | .malformed line _ => malformedPreface line
  | .missingHeader => "routing trace has no meta header"
  | .duplicateHeader line => s!"line {decimal line}: second meta header in routing trace"
  | .inconsistent index misfit => s!"route record {decimal index}: {misfit.message}"

/-! ## Reading -/

/-- What one line holds: nothing, or a record. -/
def readLine (number : Nat) (line : List Symbol) : Except Error (Option Record) :=
  match Utf8.chars? line with
  | none => .error (.unreadable .notText)
  | some cs =>
    match Text.trim cs with
    | [] => .ok none
    | cs =>
      match Record.decode (cs.map .char) with
      | .ok r => .ok (some r)
      | .error fault => .error (.malformed number fault)

/-- The part of a trace read so far, routes newest first. -/
structure Draft where
  header : Option Header := none
  routes : List Route := []

def Draft.add (d : Draft) (number : Nat) : Record → Except Error Draft
  | .header h => if d.header.isSome then .error (.duplicateHeader number) else .ok { d with header := some h }
  | .route r => .ok { d with routes := r :: d.routes }

def readLines (d : Draft) (number : Nat) : List (List Symbol) → Except Error Draft
  | [] => .ok d
  | line :: rest => do
    match ← readLine number line with
    | none => readLines d (number + 1) rest
    | some r => readLines (← d.add number r) (number + 1) rest

def Draft.trace (d : Draft) : Except Error Trace :=
  match d.header with
  | some h => .ok ⟨h, d.routes.reverse⟩
  | none => .error .missingHeader

def parse (bytes : List UInt8) : Except Error Trace := do
  (← readLines {} 1 (Text.lines (Utf8.decode bytes))).trace

def load (fs : Files) (path : Path) : Except Error Trace :=
  match fs.read path with
  | .error e => .error (.unreadable (.file e))
  | .ok bytes => parse bytes

/-! ## Verification -/

/-- The first reason why a route does not fit its header. -/
def misfit? (h : Header) (r : Route) : Option Misfit :=
  if r.experts.length ≠ r.weights.length then some (.weightCount r.experts.length r.weights.length)
  else if r.width ≠ h.topK.toNat then some (.width r.width h.topK)
  else
    match r.experts.find? fun e => h.numExperts.toNat ≤ e.toNat with
    | some e => some (.expert e h.numExperts)
    | none => if h.layersLogged.contains r.layer then none else some (.layer r.layer h.layersLogged)

def firstMisfit? (h : Header) (index : Nat) : List Route → Option (Nat × Misfit)
  | [] => none
  | r :: rest =>
    match misfit? h r with
    | some m => some (index, m)
    | none => firstMisfit? h (index + 1) rest

def verify (t : Trace) : Except Error Unit :=
  match firstMisfit? t.header 0 t.routes with
  | some (index, m) => .error (.inconsistent index m)
  | none => .ok ()

/-! ## Counts -/

def tokens (t : Trace) : Nat := t.routes.length

def requestCount (t : Trace) : Nat := (t.routes.map (·.requestId)).eraseDups.length

end Trace

end ExpertRouting
