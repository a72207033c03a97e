/-
  ExpertRouting.Proofs.Report.Consistency — a report on a trace does not contradict itself.

  Three of the four rules that a report is held against are about whole numbers, and a report
  that was made of a trace keeps them: the listed experts are some of all, and the total, the
  counts and the number of experts come from one histogram. So only the entropy, which is
  rounded, can make the check fail (`check_ofTrace`). Without a choice every figure is zero, and
  the check does not fail at all (`check_without_choice`).
-/

import ExpertRouting.Proofs.Report.Counts

namespace ExpertRouting.Report

/-- A report that keeps the rules on whole numbers is judged by its entropy. -/
theorem check_of_counts {r : Report} (htop : Histogram.sum (r.metrics.top.map (·.count)) ≤ r.metrics.total)
    (hsum : Histogram.sum r.counts = r.metrics.total) (hentries : r.counts.length = r.metrics.numExperts) :
    r.check =
      if (Binary.zero false : Real64).le r.metrics.normalized && r.metrics.normalized.le entropyLimit then .ok ()
      else .error (.entropyOutOfRange r.metrics.normalized) := by
  unfold check
  simp only
  rw [if_neg (Nat.not_lt.mpr htop), if_neg (not_not_intro hsum), if_neg (not_not_intro hentries)]

theorem sum_ofTrace (t : Trace) : Histogram.sum (ofTrace t).counts = (ofTrace t).metrics.total :=
  (Metrics.total_compute _).symm

theorem entries_ofTrace (t : Trace) : (ofTrace t).counts.length = (ofTrace t).metrics.numExperts :=
  (Metrics.numExperts_compute _).symm

theorem check_ofTrace (t : Trace) :
    (ofTrace t).check =
      if (Binary.zero false : Real64).le (ofTrace t).metrics.normalized &&
          (ofTrace t).metrics.normalized.le entropyLimit then .ok ()
      else .error (.entropyOutOfRange (ofTrace t).metrics.normalized) :=
  check_of_counts (Metrics.sum_top_le _) (sum_ofTrace t) (entries_ofTrace t)

/-! ## Without a choice -/

theorem metrics_without_choice {t : Trace} (h : ∀ r ∈ t.routes, r.experts = []) :
    (ofTrace t).metrics = Metrics.none 0 := by
  have hchosen : t.routes.flatMap (·.experts) = [] := List.flatMap_eq_nil_iff.mpr h
  show Metrics.compute (Histogram.build t.routes) = Metrics.none 0
  rw [Histogram.build, hchosen]
  rfl

theorem check_without_choice {t : Trace} (h : ∀ r ∈ t.routes, r.experts = []) : (ofTrace t).check = .ok () := by
  have hzero : ((Binary.zero false : Real64).le (Binary.zero false) &&
      (Binary.zero false : Real64).le entropyLimit) = true := by
    decide +kernel
  rw [check_ofTrace, metrics_without_choice h]
  exact if_pos hzero

/-- The report on any trace, whatever its header and its routes. The listed counts add up to no
    more than the total; all counts add up to the total, and there is one for every expert; the
    tokens are the routes, and the requests the different ids among them. The check fails only if
    the normalized entropy is out of its range, and says so; and when no route chose an expert
    it does not fail, and there are no experts. -/
theorem computed_report_keeps_its_rules (t : Trace) :
    let r := ofTrace t
    let inRange := (Binary.zero false : Real64).le r.metrics.normalized && r.metrics.normalized.le entropyLimit
    Histogram.sum (r.metrics.top.map (·.count)) ≤ r.metrics.total ∧
      Histogram.sum r.counts = r.metrics.total ∧
      r.counts.length = r.metrics.numExperts ∧
      r.tokens = t.routes.length ∧
      r.requests = (t.routes.map (·.requestId)).toFinset.card ∧ r.requests ≤ r.tokens ∧
      (∀ c, r.check = .error c ↔ inRange = false ∧ c = .entropyOutOfRange r.metrics.normalized) ∧
      ((∀ route ∈ t.routes, route.experts = []) → r.check = .ok () ∧ r.metrics.numExperts = 0) := by
  intro r inRange
  have hcheck : r.check = if inRange then .ok () else .error (.entropyOutOfRange r.metrics.normalized) := check_ofTrace t
  refine ⟨Metrics.sum_top_le _, sum_ofTrace t, entries_ofTrace t, rfl, t.requestCount_eq, t.requestCount_le, fun c => ?_,
    fun h => ⟨check_without_choice h, ?_⟩⟩
  · rw [hcheck]
    cases inRange with
    | true => simp
    | false => simp [eq_comm]
  · rw [show r.metrics = Metrics.none 0 from metrics_without_choice h]
    rfl

/-- Three routes of two requests, none of which chose an expert; two routes that chose one expert;
    and two that chose three, whose entropy is the machine's to say. -/
theorem reports_with_and_without_choices_keep_their_rules :
    let header : Header := { modelId := "m", engineVersion := "e", runtimeVersion := "r", device := "cpu", seed := none,
                             layersLogged := [0], topK := 2, numExperts := 4 }
    let half := Binary.ofDecimal binary64 false 5 (-1)
    let empty : Trace := ⟨header, [⟨"a", 0, 0, [], []⟩, ⟨"b", 0, 0, [], []⟩, ⟨"a", 1, 0, [], []⟩]⟩
    let one : Trace := ⟨header, [⟨"a", 0, 0, [0], [half]⟩, ⟨"a", 1, 0, [0], [half]⟩]⟩
    let three : Trace := ⟨header, [⟨"a", 0, 0, [2, 0], [half, half]⟩, ⟨"b", 0, 0, [2, 1], [half, half]⟩]⟩
    ((ofTrace empty).check = .ok () ∧ (ofTrace empty).metrics.numExperts = 0 ∧ (ofTrace empty).metrics.total = 0 ∧
      (ofTrace empty).tokens = 3 ∧ (ofTrace empty).requests = 2) ∧
    ((ofTrace one).check = .ok () ∧ (ofTrace one).counts = [2] ∧ (ofTrace one).metrics.total = 2) ∧
    (ofTrace three).metrics.top.map (·.count) = [2, 1, 1] ∧ (ofTrace three).metrics.total = 4 ∧
      (ofTrace three).counts = [1, 1, 2] ∧ (ofTrace three).metrics.numExperts = 3 ∧ (ofTrace three).tokens = 2 ∧
      (ofTrace three).requests = 2 ∧
      ∀ c, (ofTrace three).check = .error c → c = .entropyOutOfRange (ofTrace three).metrics.normalized := by
  intro header half empty one three
  obtain ⟨-, hsum, -, htokens, hrequests, -, -, hempty⟩ := computed_report_keeps_its_rules empty
  obtain ⟨-, hsum₁, -, -, -, -, hfails₁, -⟩ := computed_report_keeps_its_rules one
  obtain ⟨-, hsum₃, hentries₃, htokens₃, hrequests₃, -, hfails₃, -⟩ := computed_report_keeps_its_rules three
  obtain ⟨hcheck, hexperts⟩ := hempty (by decide)
  have hcounts₁ : (ofTrace one).counts = [2] := by decide +kernel
  have hcounts₃ : (ofTrace three).counts = [1, 1, 2] := by decide +kernel
  refine ⟨⟨hcheck, hexperts, hsum.symm, htokens, hrequests.trans (by decide)⟩, ⟨?_, hcounts₁, ?_⟩, ?_, ?_, hcounts₃, ?_,
    htokens₃, hrequests₃.trans (by decide), fun c hc => ((hfails₃ c).mp hc).2⟩
  · -- one expert allows no entropy, so there is nothing to share
    have hin : ((Binary.zero false : Real64).le (ofTrace one).metrics.normalized &&
        (ofTrace one).metrics.normalized.le entropyLimit) = true := by
      decide +kernel
    cases h : (ofTrace one).check with
    | ok u => rfl
    | error c =>
      have hout := ((hfails₁ c).mp h).1
      rw [hin] at hout
      cases hout
  · rw [← hsum₁, hcounts₁]
    rfl
  · have hbuild : Histogram.build three.routes = ⟨[1, 1, 2]⟩ := by decide +kernel
    have hranked : Metrics.ranked [1, 1, 2] = [(2, 2), (1, 0), (1, 1)] := by simp [Metrics.ranked, List.mergeSort]
    have htotal : Histogram.total ⟨[1, 1, 2]⟩ = 4 := rfl
    simp [ofTrace, hbuild, Metrics.compute, htotal, Metrics.topShares, hranked, Metrics.topCount]
  · rw [← hsum₃, hcounts₃]
    rfl
  · rw [← hentries₃, hcounts₃]
    rfl

end ExpertRouting.Report
