/-
  ExpertRouting.Proofs.Report.Counts — what the numbers of a report count.

  The total counts all choices, and every route that fits its header makes as many
  (`Report.total_ofTrace`); the requests are the different ids of the routes
  (`requestCount_eq`). All but the number of requests follows from which experts the routes
  chose (`Report.ofTrace_chosen`).
-/

import Mathlib.Data.Finset.Card
import ExpertRouting.Proofs.Report.LineOrder
import ExpertRouting.Proofs.Usage.Ranking

namespace ExpertRouting

theorem Trace.requestCount_eq (t : Trace) : t.requestCount = (t.routes.map (·.requestId)).toFinset.card := by
  rw [requestCount, ← List.toFinset_card_of_nodup (nodup_eraseDups _)]
  congr 1
  ext id
  rw [List.mem_toFinset, List.mem_toFinset, List.mem_eraseDups]

theorem Report.total_ofTrace {t : Trace} (h : t.verify = .ok ()) :
    (ofTrace t).metrics.total = t.header.topK.toNat * (ofTrace t).tokens := by
  have hwidths : t.routes.map (·.experts.length) = List.replicate t.routes.length t.header.topK.toNat :=
    List.map_eq_replicate_iff.mpr fun r hr => (Trace.verify_ok_iff_fits.mp h r hr).width
  show (Metrics.compute (Histogram.build t.routes)).total = t.header.topK.toNat * t.routes.length
  rw [Metrics.total_compute, Histogram.build, Histogram.total_ofExperts, List.length_flatMap, hwidths,
    List.sum_replicate_nat, Nat.mul_comm]

/-- Traces that chose the same experts have the same report, but for the number of requests. -/
theorem Report.ofTrace_chosen {t t' : Trace} (h : t'.routes.map (·.experts) = t.routes.map (·.experts)) :
    ofTrace t' = { ofTrace t with requests := t'.requestCount } := by
  have hbuild : Histogram.build t'.routes = Histogram.build t.routes := by
    rw [Histogram.build, Histogram.build, List.flatMap_def, List.flatMap_def, h]
  have htokens : t'.tokens = t.tokens := by
    simpa [Trace.tokens] using congrArg List.length h
  rw [ofTrace, ofTrace, hbuild, htokens]

end ExpertRouting
