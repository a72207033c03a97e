/-
  ExpertRouting.Report.File — the metrics file.

  A report is written as one object, the metrics first and not nested, with a line for each
  part and a line end after it. Reading is by name and in any order: the four fields of
  the report itself are checked when they are met, the metrics among the other members
  once the object is complete. The load balance may also be written as a choice.
-/

import ExpertRouting.Failure
import ExpertRouting.Json.Field
import ExpertRouting.Report.Basic

namespace ExpertRouting

open Json

/-! ## Writing -/

def Share.toJson (s : Share) : Json :=
  .object [("expert_id", .ofNat s.expert), ("count", .ofNat s.count), ("probability", .ofReal s.probability)]

def Metrics.fields (m : Metrics) : List (String × Json) :=
  [("top_3_experts", .array (m.top.map Share.toJson)), ("shannon_entropy_bits", .ofReal m.entropy),
   ("max_entropy_bits", .ofReal m.maxEntropy), ("normalized_entropy", .ofReal m.normalized),
   ("total_selections", .ofNat m.total), ("num_experts", .ofNat m.numExperts)]

def Metrics.toJson (m : Metrics) : Json := .object m.fields

def Report.toJson (r : Report) : Json :=
  .object (r.metrics.fields ++
    [("load_balance", .string r.loadBalance.name), ("tokens_processed", .ofNat r.tokens),
     ("requests", .ofNat r.requests), ("expert_counts", .array (r.counts.map .ofNat))])

def Report.text (r : Report) : List Char := r.toJson.pretty ++ ['\n']

/-! ## Reading -/

def count64 : Decoder Nat := naturalBelow UInt64.size

structure ShareSlots where
  expert : Slot Nat := none
  count : Slot Nat := none
  probability : Slot Real64 := none

def ShareSlots.take (s : ShareSlots) (key : String) (r : Reading) : Except Fault ShareSlots :=
  match key with
  | "expert_id" => do return { s with expert := ← fill s.expert count64 r }
  | "count" => do return { s with count := ← fill s.count count64 r }
  | "probability" => do return { s with probability := ← fill s.probability real r }
  | _ => skip s r

def ShareSlots.share (s : ShareSlots) : Except Fault Share := do
  return ⟨← required s.expert, ← required s.count, ← required s.probability⟩

def Share.ofReading : Decoder Share
  | .object members stop => do (← foldMembers ShareSlots.take {} stop members).share
  | .array items stop => do
    let (expert, rest) ← item count64 ⟨items, stop⟩
    let (count, rest) ← item count64 rest
    let (probability, rest) ← item real rest
    endItems .mismatch rest ⟨expert, count, probability⟩
  | r => otherKind r

structure MetricsSlots where
  top : Slot (List Share) := none
  entropy : Slot Real64 := none
  maxEntropy : Slot Real64 := none
  normalized : Slot Real64 := none
  total : Slot Nat := none
  numExperts : Slot Nat := none

def MetricsSlots.take (s : MetricsSlots) (key : String) (r : Reading) : Except Fault MetricsSlots :=
  match key with
  | "top_3_experts" => do return { s with top := ← fill s.top (listOf Share.ofReading) r }
  | "shannon_entropy_bits" => do return { s with entropy := ← fill s.entropy real r }
  | "max_entropy_bits" => do return { s with maxEntropy := ← fill s.maxEntropy real r }
  | "normalized_entropy" => do return { s with normalized := ← fill s.normalized real r }
  | "total_selections" => do return { s with total := ← fill s.total count64 r }
  | "num_experts" => do return { s with numExperts := ← fill s.numExperts count64 r }
  | _ => skip s r

def MetricsSlots.metrics (s : MetricsSlots) : Except Fault Metrics := do
  return { top := ← required s.top
           entropy := ← required s.entropy
           maxEntropy := ← required s.maxEntropy
           normalized := ← required s.normalized
           total := ← required s.total
           numExperts := ← required s.numExperts }

namespace LoadBalance

def ofKey : Key → Except Fault LoadBalance
  | none => .error .malformed
  | some s =>
    match ofName? s with
    | some b => .ok b
    | none => .error .mismatch

def nothing : Decoder Unit
  | .null => .ok ()
  | r => otherKind r

/-- A name, or an object with the name as its one key and null as the value. -/
def ofReading : Decoder LoadBalance
  | .string s => ofKey s
  | .object ((key, r) :: rest) stop => do
    let b ← ofKey key
    nothing r
    if rest.isEmpty then refuse (stop.map (·.choice)) (.ok b) else .error .malformed
  | .object [] stop => refuse (stop.map (·.choice)) (.error .malformed)
  | .broken b => .error b.choice
  | _ => .error .malformed

end LoadBalance

/-- The fields of a report that have been met, and its other members, newest first. -/
structure ReportSlots where
  loadBalance : Slot LoadBalance := none
  tokens : Slot Nat := none
  requests : Slot Nat := none
  counts : Slot (List Nat) := none
  others : List (Key × Reading) := []

def ReportSlots.take (s : ReportSlots) (key : String) (r : Reading) : Except Fault ReportSlots :=
  match key with
  | "load_balance" => do return { s with loadBalance := ← fill s.loadBalance LoadBalance.ofReading r }
  | "tokens_processed" => do return { s with tokens := ← fill s.tokens count64 r }
  | "requests" => do return { s with requests := ← fill s.requests count64 r }
  | "expert_counts" => do return { s with counts := ← fill s.counts (listOf count64) r }
  | _ => refuse (r.fault? (maxDepth - 1)) (.ok { s with others := (some key, r) :: s.others })

def ReportSlots.report (s : ReportSlots) : Except Fault Report := do
  let metrics ← foldMembers MetricsSlots.take {} none s.others.reverse
  return { metrics := ← metrics.metrics
           loadBalance := ← required s.loadBalance
           tokens := ← required s.tokens
           requests := ← required s.requests
           counts := ← required s.counts }

namespace Report

/-- Only an object is a report. -/
def ofReading : Decoder Report
  | .object members stop => do (← foldMembers ReportSlots.take {} stop members).report
  | r => otherKind r

def decode (text : List Symbol) : Except Fault Report := decodeText ofReading text

def load (fs : Files) (path : Path) : Except Failure Report :=
  fs.decode path "Failed to open metrics file at " "Failed to parse metrics file at " decode

def save (r : Report) (fs : Files) (path : Path) : Except Failure Files :=
  fs.save path "Failed to create metrics file at " r.text

end Report

end ExpertRouting
