/-
  ExpertRouting.Proofs.Report.Strict — what a strict analysis adds.

  A strict analysis verifies the trace before it is summed up, and an analysis that is not strict
  does all but that. A trace that is refused fails with the first misfit (`analyze_refused`), and
  for one that is verified both come out alike (`analyze_verified`). A verified trace has routes
  of one width and no expert beyond its header, so its choices are a multiple of its tokens
  (`total_ofTrace`) and its histogram is no longer than the header says (`numExperts_verified`).
-/

import ExpertRouting.Proofs.Report.Counts
import ExpertRouting.Report.Analyze

namespace ExpertRouting.Report

variable {t : Trace} {fs : Files} {path : Path}

theorem analyze_verified (hload : Trace.load fs path = .ok t) (hverify : t.verify = .ok ()) :
    analyze fs path true = analyze fs path false := by
  unfold analyze
  rw [hload]
  simp only [pure_bind]
  rw [hverify]
  rfl

theorem analyze_refused {e : Trace.Error} (hload : Trace.load fs path = .ok t) (hverify : t.verify = .error e) :
    analyze fs path true = .error ⟨"Routing trace failed verification", some (.trace e)⟩ := by
  unfold analyze
  rw [hload]
  simp only [pure_bind]
  rw [hverify]
  rfl

theorem numExperts_verified (hverify : t.verify = .ok ()) :
    (Histogram.build t.routes).numExperts ≤ t.header.numExperts.toNat := by
  rw [Histogram.build, Histogram.numExperts_ofExperts]
  refine Histogram.reach_le_of_lt fun e he => ?_
  obtain ⟨r, hr, her⟩ := List.mem_flatMap.mp he
  exact (Trace.verify_ok_iff_fits.mp hverify r hr).experts e her

/-- Any trace. It is verified exactly when every route has as many weights as experts, the width
    of the header, only experts below the header's number, and a layer that the header logs.
    Otherwise the error is at the first route that does not, counted from zero, with the first of
    these four that it lacks, and where that is the range, with its first expert out of range. Of a
    verified trace the total is the width times the tokens, and the histogram has no more entries
    than the header has experts; and where a file holds it, a strict analysis comes to the same as
    one that is not. Where a file holds a refused one, a strict analysis fails with its error. -/
theorem strict_analysis_takes_consistent_traces (t : Trace) :
    (t.verify = .ok () ↔ ∀ r ∈ t.routes, r.Fits t.header) ∧
      (∀ e, t.verify = .error e ↔
        ∃ front r back m, t.routes = front ++ r :: back ∧ (∀ r' ∈ front, r'.Fits t.header) ∧
          Trace.FirstMisfit t.header r m ∧ e = .inconsistent front.length m) ∧
      (t.verify = .ok () →
        (ofTrace t).metrics.total = t.header.topK.toNat * t.tokens ∧
          (Histogram.build t.routes).numExperts ≤ t.header.numExperts.toNat ∧
          ∀ fs path, Trace.load fs path = .ok t → analyze fs path true = analyze fs path false) ∧
      ∀ e, t.verify = .error e → ∀ fs path, Trace.load fs path = .ok t →
        analyze fs path true = .error ⟨"Routing trace failed verification", some (.trace e)⟩ := by
  refine ⟨Trace.verify_ok_iff_fits, fun e => Trace.verify_error_iff, fun hverify => ?_, fun e hverify fs path hload => ?_⟩
  · exact ⟨total_ofTrace hverify, numExperts_verified hverify, fun fs path hload => analyze_verified hload hverify⟩
  · exact analyze_refused hload hverify

/-- A trace whose second route has two experts out of range and a layer that is not logged, and
    whose third has another width; and the same trace up to its first route. -/
theorem a_trace_with_three_misfits_is_refused_at_the_first :
    let header : Header := { modelId := "m", engineVersion := "e", runtimeVersion := "r", device := "cpu", seed := none,
                             layersLogged := [0], topK := 2, numExperts := 4 }
    let half := Binary.ofDecimal binary64 false 5 (-1)
    let first : Route := { requestId := "a", token := 0, layer := 0, experts := [3, 1], weights := [half, half] }
    let second : Route := { requestId := "a", token := 1, layer := 5, experts := [9, 7], weights := [half, half] }
    let third : Route := { requestId := "a", token := 2, layer := 0, experts := [1], weights := [half] }
    let file (routes : List Route) := Entry.file ((Record.line (.header header)) ++ routes.flatMap (Record.line ∘ .route))
    let fs := (Files.empty.put ⟨.above 0, ["bad"]⟩ (file [first, second, third])).put ⟨.above 0, ["good"]⟩ (file [first])
    analyze fs "bad" true =
        .error ⟨"Routing trace failed verification", some (.trace (.inconsistent 1 (.expert 9 4)))⟩ ∧
      analyze fs "good" true = analyze fs "good" false := by
  intro header half first second third file fs
  have hbad : Trace.load fs "bad" = .ok ⟨header, [first, second, third]⟩ := by decide +kernel
  have hgood : Trace.load fs "good" = .ok ⟨header, [first]⟩ := by decide +kernel
  obtain ⟨-, herror, -, hrefused⟩ := strict_analysis_takes_consistent_traces ⟨header, [first, second, third]⟩
  obtain ⟨hok, -, hverified, -⟩ := strict_analysis_takes_consistent_traces ⟨header, [first]⟩
  have hfirst : first.Fits header :=
    ⟨by simp [first], by simp [first, header], by simp [first, header], by simp [first, header]⟩
  have hsecond : Trace.FirstMisfit header second (.expert 9 4) := by
    have hexperts : second.experts = [] ++ 9 :: [7] := by simp [second]
    exact .expert (by simp [second]) (by simp [second, header]) hexperts (by simp) (by simp [header])
  constructor
  · exact hrefused _ ((herror _).mpr ⟨[first], second, [third], _, rfl, by simpa using hfirst, hsecond, rfl⟩) fs "bad" hbad
  · exact (hverified (hok.mpr (by simpa using hfirst))).2.2 fs "good" hgood

end ExpertRouting.Report
