/-
  ExpertRouting.Report.Summary — the report as text for a reader.

  The model and the counts come first; without a choice that is all. Then the experts
  chosen most often, numbered and in columns, and the entropies with four places.
-/

import ExpertRouting.Report.Basic

namespace ExpertRouting.Report

def ruleLine : String := String.ofList (List.replicate 60 '=')

/-- One listed expert; `rank` counts from one. -/
def shareLine (rank : Nat) (s : Share) : String :=
  let percent := s.probability * Binary.ofNat binary64 100
  s!"  #{decimal rank}: Expert {alignRight 2 (decimal s.expert)} - {alignRight 5 (decimal s.count)} selections" ++
    s!" ({alignRight 6 (fixedText 2 percent)}%)"

def shareLines (rank : Nat) : List Share → List String
  | [] => []
  | s :: rest => shareLine rank s :: shareLines (rank + 1) rest

def countLines (h : Header) (r : Report) : List String :=
  [s!"Model: {h.modelId}",
   s!"Layers logged: {decimalList (h.layersLogged.map UInt64.toNat)}",
   s!"Top-k: {decimal h.topK.toNat}",
   ruleLine,
   "EXPERT USAGE ANALYSIS",
   ruleLine,
   s!"Total expert selections: {decimal r.metrics.total}",
   s!"Number of experts: {decimal r.metrics.numExperts}",
   s!"Tokens processed: {decimal r.tokens}",
   s!"Requests: {decimal r.requests}",
   ""]

def metricLines (r : Report) : List String :=
  ["Top-3 Experts:"] ++ shareLines 1 r.metrics.top ++
  ["",
   "Distribution Metrics:",
   s!"  Shannon Entropy: {fixedText 4 r.metrics.entropy} bits",
   s!"  Max Entropy:     {fixedText 4 r.metrics.maxEntropy} bits",
   s!"  Normalized:      {fixedText 4 r.metrics.normalized} (load balance)",
   "",
   s!"  Interpretation: {r.loadBalance.description}"]

def summary (h : Header) (r : Report) : String :=
  let body := if r.metrics.hasData then metricLines r else ["No expert selections recorded."]
  String.join ((countLines h r ++ body ++ [ruleLine]).map (· ++ "\n"))

end ExpertRouting.Report
