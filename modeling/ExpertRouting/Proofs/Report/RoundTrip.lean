/-
  ExpertRouting.Proofs.Report.RoundTrip — what saving a report and loading it again keeps.

  A saved report is found under its path (`Files.find_write`) and decoded as the report with
  its reals read again (`Report.decode_text`), so the lists, the load balance and every whole
  number come back, and a real comes back when the reader makes the same real of its decimals.
  The reader rounds a decimal of more than fifteen digits more than once, so not every real
  does: a report loads as itself exactly when each of its reals is one that does
  (`saved_report_loads_reread`), and ten elevenths is one that does not
  (`ten_elevenths_are_not_read_back`).
-/

import ExpertRouting.Proofs.Files.Write
import ExpertRouting.Proofs.Report.Codec
import ExpertRouting.Proofs.Report.LineOrder
import ExpertRouting.Proofs.Usage.Ranking

namespace ExpertRouting

/-! ## Reports on traces -/

/-- The report on a trace whose routes and choices can be counted has its numbers in their ranges. -/
theorem Report.ofTrace_inRange {t : Trace} (hroutes : t.routes.length < UInt64.size)
    (hchoices : (t.routes.flatMap (·.experts)).length < UInt64.size) : (ofTrace t).InRange := by
  have hsize : UInt32.size < UInt64.size := by decide
  have hcounts : ∀ n ∈ (Histogram.build t.routes).counts, n < UInt64.size :=
    fun n hn => (Histogram.le_length_of_mem hn).trans_lt hchoices
  have hexperts : (Histogram.build t.routes).counts.length < UInt64.size := by
    have hreach := Histogram.reach_le (t.routes.flatMap (·.experts))
    rw [← Histogram.numExperts_ofExperts] at hreach
    exact hreach.trans_lt hsize
  have htotal : (Histogram.build t.routes).total < UInt64.size := by
    rw [Histogram.build, Histogram.total_ofExperts]
    exact hchoices
  have htop : ∀ s ∈ (ofTrace t).metrics.top, s.expert < UInt64.size ∧ s.count < UInt64.size := by
    intro s hs
    unfold ofTrace Metrics.compute at hs
    simp only at hs
    split at hs
    · exact absurd hs List.not_mem_nil
    · obtain ⟨hlt, hget⟩ := List.getElem?_eq_some_iff.mp (Metrics.getElem?_of_listed hs)
      exact ⟨hlt.trans hexperts, hcounts _ (hget ▸ List.getElem_mem hlt)⟩
  refine ⟨htop, ?_, ?_, hroutes, t.requestCount_le.trans_lt hroutes, hcounts⟩
  · exact (Metrics.total_compute _).trans_lt htotal
  · exact (Metrics.numExperts_compute _).trans_lt hexperts

/-! ## Saving and loading -/

namespace Report

variable {r : Report} {fs : Files} {path : Path} {place : Place}

theorem save_ok (hpath : fs.creatable path = .ok place) (r : Report) :
    r.save fs path = .ok (fs.holding place r.text) := Files.save_ok hpath _ _

theorem load_holding (hr : r.InRange) (hpath : fs.creatable path = .ok place) :
    (load (fs.holding place r.text) path).toOption = r.reread? := by
  rw [load, Files.decode_save hpath, ← decode_text hr]
  cases decode (r.text.map .char) <;> rfl

theorem load_holding_iff (hr : r.InRange) (hpath : fs.creatable path = .ok place) (r' : Report) :
    load (fs.holding place r.text) path = .ok r' ↔ r.reread? = some r' := by
  rw [← load_holding hr hpath]
  cases load (fs.holding place r.text) path <;> simp [Except.toOption]

end Report

/-- A report whose numbers are in their ranges, with any number of shares and counts and any load
    balance, saved at a path where a file may be written. It is saved, and loading gives the report
    with every real read again from its decimals; it fails only if a real is not finite. What is
    loaded is the report itself exactly when each of its reals is finite and read back. A loaded
    report is saved in place of the first one, and when it is the same, no byte of the file
    changes. -/
theorem saved_report_loads_reread {r : Report} (hr : r.InRange) {fs : Files} {path : Path} {place : Place}
    (hpath : fs.creatable path = .ok place) :
    ∃ fs', r.save fs path = .ok fs' ∧
      (Report.load fs' path).toOption = r.reread? ∧
      ((∃ r', Report.load fs' path = .ok r') ↔ ∀ x ∈ r.metrics.reals, x.isFinite = true) ∧
      (Report.load fs' path = .ok r ↔ ∀ x ∈ r.metrics.reals, Json.ReadsBack x) ∧
      ∀ r', Report.load fs' path = .ok r' → ∃ fs'', r'.save fs' path = .ok fs'' ∧ (r' = r → fs'' = fs') := by
  have hload := Report.load_holding_iff hr hpath
  refine ⟨_, Report.save_ok hpath r, Report.load_holding hr hpath, ?_, ?_, ?_⟩
  · rw [← r.reread?_isSome_iff, Option.isSome_iff_exists]
    exact exists_congr hload
  · rw [hload]
    exact r.reread?_eq_self_iff
  · intro r' _
    refine ⟨_, Files.save_save hpath _ _ _, ?_⟩
    rintro rfl
    rfl

/-- A report with the largest numbers, a share whose probability is a negative zero, the smallest
    real and one written with a power of ten. -/
theorem a_report_of_extremes_is_read_back :
    let r : Report := { metrics := { top := [⟨18446744073709551615, 0, Binary.zero true⟩]
                                     entropy := Binary.ofDecimal binary64 false 5 (-1)
                                     maxEntropy := Binary.ofDecimal binary64 true 125 28
                                     normalized := Binary.ofDecimal binary64 false 5 (-324)
                                     total := 18446744073709551615
                                     numExperts := 0 }
                        loadBalance := .moderateImbalance
                        tokens := 0
                        requests := 18446744073709551615
                        counts := [0, 18446744073709551615] }
    r.InRange ∧ Files.empty.creatable "out.json" = .ok ⟨.above 0, ["out.json"]⟩ ∧
      (∀ x ∈ r.metrics.reals, Json.ReadsBack x) ∧
      ∃ fs', r.save Files.empty "out.json" = .ok fs' ∧ Report.load fs' "out.json" = .ok r := by
  intro r
  have hr : r.InRange := ⟨by decide, by decide, by decide, by decide, by decide, by decide⟩
  have hpath : Files.empty.creatable "out.json" = .ok ⟨.above 0, ["out.json"]⟩ := by decide +kernel
  have hreals : ∀ x ∈ r.metrics.reals, Json.ReadsBack x := by decide +kernel
  obtain ⟨fs', hsave, -, -, hload, -⟩ := saved_report_loads_reread hr hpath
  exact ⟨hr, hpath, hreals, fs', hsave, hload.mpr hreals⟩

/-- Eleven choices, ten of them of one expert. The report on them has a share of ten elevenths, and
    is not what the file it is saved to is loaded as. A report with that share and finite reals
    throughout loads as another one, whose file differs. -/
theorem ten_elevenths_are_not_read_back :
    let one : Real64 := Binary.ofNat binary64 1
    let header : Header := { modelId := "m", engineVersion := "e", runtimeVersion := "r", device := "cpu", seed := none,
                             layersLogged := [0], topK := 1, numExperts := 2 }
    let t : Trace := ⟨header, (0 :: List.replicate 10 1).map fun e => ⟨"r", 0, 0, [e], [one]⟩⟩
    let shares : List Share := [⟨1, 10, Metrics.probability 11 10⟩, ⟨0, 1, Metrics.probability 11 1⟩]
    let r : Report := { metrics := ⟨shares, one, one, one, 11, 2⟩, loadBalance := .nearPerfect, tokens := 11,
                        requests := 1, counts := [1, 10] }
    ((Report.ofTrace t).metrics.top = shares ∧ (Report.ofTrace t).InRange ∧
      ∃ fs', (Report.ofTrace t).save Files.empty "out.json" = .ok fs' ∧
        Report.load fs' "out.json" ≠ .ok (Report.ofTrace t)) ∧
    (r.InRange ∧ (∀ x ∈ r.metrics.reals, x.isFinite = true) ∧
      ∃ fs' r', r.save Files.empty "out.json" = .ok fs' ∧ Report.load fs' "out.json" = .ok r' ∧ r' ≠ r ∧
        r'.text ≠ r.text) := by
  intro one header t shares r
  have hpath : Files.empty.creatable "out.json" = .ok ⟨.above 0, ["out.json"]⟩ := by decide +kernel
  have hprobability : ¬ Json.ReadsBack (Metrics.probability 11 10) := by decide +kernel
  have hbuild : Histogram.build t.routes = ⟨[1, 10]⟩ := by decide +kernel
  have hranked : Metrics.ranked [1, 10] = [(10, 1), (1, 0)] := by simp [Metrics.ranked, List.mergeSort]
  have htotal : Histogram.total ⟨[1, 10]⟩ = 11 := rfl
  have htop : (Report.ofTrace t).metrics.top = shares := by
    simp [Report.ofTrace, hbuild, Metrics.compute, htotal, Metrics.topShares, hranked, Metrics.topCount, shares]
  have ht : (Report.ofTrace t).InRange := Report.ofTrace_inRange (by decide) (by decide)
  refine ⟨⟨htop, ht, _, Report.save_ok hpath _, ?_⟩, ?_⟩
  · intro hload
    have hreals := (Report.reread?_eq_self_iff _).mp ((Report.load_holding_iff ht hpath _).mp hload)
    exact hprobability (hreals _ (by simp [Metrics.reals, htop, shares]))
  · have hr : r.InRange := ⟨by decide, by decide, by decide, by decide, by decide, by decide⟩
    have hfinite : ∀ x ∈ r.metrics.reals, x.isFinite = true := by decide +kernel
    have hreread : ∃ r', r.reread? = some r' ∧ r'.text ≠ r.text := by
      have hsome : r.reread?.isSome = true := by decide +kernel
      obtain ⟨r', hr'⟩ := Option.isSome_iff_exists.mp hsome
      have htext : r.reread?.map Report.text ≠ some r.text := by decide +kernel
      rw [hr'] at htext
      exact ⟨r', hr', fun h => htext (congrArg some h)⟩
    obtain ⟨r', hr', htext⟩ := hreread
    refine ⟨hr, hfinite, _, r', Report.save_ok hpath r, (Report.load_holding_iff hr hpath r').mpr hr', ?_, htext⟩
    rintro rfl
    exact htext rfl

end ExpertRouting
