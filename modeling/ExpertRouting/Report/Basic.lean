/-
  ExpertRouting.Report.Basic — the report on a trace, and whether it agrees with itself.

  A report holds the metrics of a trace's histogram, the histogram, and how many tokens and
  requests there were. `check` holds it against four rules, in order: the listed counts do
  not exceed the total, the histogram sums to the total, it has an entry for every expert,
  and the normalized entropy lies between zero and one (a little above is allowed).
-/

import ExpertRouting.Trace.Basic
import ExpertRouting.Usage.Metrics

namespace ExpertRouting

structure Report where
  metrics : Metrics
  loadBalance : LoadBalance
  tokens : Nat
  requests : Nat
  counts : List Nat
  deriving DecidableEq

namespace Report

def ofTrace (t : Trace) : Report :=
  let histogram := Histogram.build t.routes
  let metrics := Metrics.compute histogram
  { metrics
    loadBalance := metrics.loadBalance
    tokens := t.tokens
    requests := t.requestCount
    counts := histogram.counts }

inductive Contradiction where
  | topAboveTotal (top total : Nat)
  | sumNotTotal (sum total : Nat)
  | entriesNotExperts (entries experts : Nat)
  | entropyOutOfRange (normalized : Real64)
  deriving DecidableEq

def Contradiction.message : Contradiction → String
  | .topAboveTotal top total => s!"top-3 selections {decimal top} exceed total {decimal total}"
  | .sumNotTotal sum total => s!"histogram sums to {decimal sum} but total_selections is {decimal total}"
  | .entriesNotExperts entries experts =>
    s!"histogram has {decimal entries} experts but num_experts is {decimal experts}"
  | .entropyOutOfRange x => s!"normalized entropy {plainText x} outside [0, 1]"

def entropyLimit : Real64 := Binary.ofNat binary64 1 + Binary.ofDecimal binary64 false 1 (-9)

/-- The first rule that a report breaks. -/
def check (r : Report) : Except Contradiction Unit :=
  let top := Histogram.sum (r.metrics.top.map (·.count))
  let sum := Histogram.sum r.counts
  if r.metrics.total < top then .error (.topAboveTotal top r.metrics.total)
  else if sum ≠ r.metrics.total then .error (.sumNotTotal sum r.metrics.total)
  else if r.counts.length ≠ r.metrics.numExperts then
    .error (.entriesNotExperts r.counts.length r.metrics.numExperts)
  else if (Binary.zero false : Real64).le r.metrics.normalized && r.metrics.normalized.le entropyLimit then .ok ()
  else .error (.entropyOutOfRange r.metrics.normalized)

end Report

end ExpertRouting
