/-
  ExpertRouting.Proofs.Command.Analyze — what an analysis leaves in the metrics file.

  Before the metrics file is opened the trace has to pass four stages: it is loaded, verified
  if strictness is asked for, its report is held against its own rules, and it has a route.
  `Stops` names the first stage that fails, with the failure, and `Passes` the trace for which
  none does; one of the two is always the case (`stops_or_passes`). An analysis that stops
  prints nothing and changes no file (`Stops.outcome`). For a trace that passes, the metrics path
  gets the whole page of the report, which is loaded as the report again where its reals read
  back, or it cannot be created and nothing is changed (`analyze_saves_only_sound_reports`).
-/

import ExpertRouting.Command.Run
import ExpertRouting.Proofs.Report.Consistency
import ExpertRouting.Proofs.Report.Page
import ExpertRouting.Proofs.Report.RoundTrip
import ExpertRouting.Proofs.Report.Strict

namespace ExpertRouting.Command

variable {o : AnalyzeOptions} {fs : Files}

/-- The first stage that fails before the report is saved, and how it fails. -/
inductive Stops (o : AnalyzeOptions) (fs : Files) : Failure → Prop
  | unloaded {e : Trace.Error} : Trace.load fs o.trace = .error e →
      Stops o fs ⟨"Failed to load routing trace at " ++ Text.quoted o.trace, some (.trace e)⟩
  | unverified {t : Trace} {e : Trace.Error} : Trace.load fs o.trace = .ok t → o.strict = true →
      t.verify = .error e → Stops o fs ⟨"Routing trace failed verification", some (.trace e)⟩
  | inconsistent {t : Trace} {c : Report.Contradiction} : Trace.load fs o.trace = .ok t →
      (o.strict = true → t.verify = .ok ()) → (Report.ofTrace t).check = .error c → Stops o fs ⟨c.message, none⟩
  | empty {t : Trace} : Trace.load fs o.trace = .ok t → (o.strict = true → t.verify = .ok ()) →
      (Report.ofTrace t).check = .ok () → t.routes = [] →
      Stops o fs ⟨"No routing records found in " ++ o.trace, none⟩

/-- A trace that passes every stage before its report is saved. -/
structure Passes (o : AnalyzeOptions) (fs : Files) (t : Trace) : Prop where
  loaded : Trace.load fs o.trace = .ok t
  verified : o.strict = true → t.verify = .ok ()
  consistent : (Report.ofTrace t).check = .ok ()
  routes : t.routes ≠ []

theorem stops_or_passes (o : AnalyzeOptions) (fs : Files) : (∃ e, Stops o fs e) ∨ ∃ t, Passes o fs t := by
  cases hload : Trace.load fs o.trace with
  | error e => exact .inl ⟨_, .unloaded hload⟩
  | ok t =>
    by_cases hverified : o.strict = true → t.verify = .ok ()
    case neg =>
      obtain ⟨hstrict, hverify⟩ := Classical.not_imp.mp hverified
      cases he : t.verify with
      | error e => exact .inl ⟨_, .unverified hload hstrict he⟩
      | ok u => exact absurd he hverify
    cases hcheck : (Report.ofTrace t).check with
    | error c => exact .inl ⟨_, .inconsistent hload hverified hcheck⟩
    | ok u =>
      by_cases hroutes : t.routes = []
      · exact .inl ⟨_, .empty hload hverified hcheck hroutes⟩
      · exact .inr ⟨t, hload, hverified, hcheck, hroutes⟩

/-- A trace that is loaded, and verified where that is asked for, is judged by the rules of its report. -/
theorem report_of_check {path : Path} {strict : Bool} {t : Trace} (hload : Trace.load fs path = .ok t)
    (hverified : strict = true → t.verify = .ok ()) :
    Report.analyze fs path strict =
      match (Report.ofTrace t).check with
      | .ok () => .ok (t, Report.ofTrace t)
      | .error c => .error ⟨c.message, none⟩ := by
  have hlenient : Report.analyze fs path strict = Report.analyze fs path false := by
    cases strict with
    | false => rfl
    | true => exact Report.analyze_verified hload (hverified rfl)
  rw [hlenient, Report.analyze, hload]
  rfl

theorem Stops.outcome {e : Failure} (h : Stops o fs e) : analyze o fs = { failure := some e, files := fs } := by
  unfold analyze
  cases h with
  | unloaded hload =>
    rw [Report.analyze, hload]
    rfl
  | unverified hload hstrict hverify => rw [hstrict, Report.analyze_refused hload hverify]
  | inconsistent hload hverified hcheck => rw [report_of_check hload hverified, hcheck]
  | empty hload hverified hcheck hroutes =>
    rw [report_of_check hload hverified, hcheck]
    simp only [hroutes, List.isEmpty_nil, if_true]

/-- An analysis that passes saves its report, or changes no file either. -/
theorem Passes.outcome {t : Trace} (h : Passes o fs t) :
    analyze o fs =
      { output := Report.summary t.header (Report.ofTrace t) ++ "\n"
        failure := match fs.creatable o.metricsOut with
          | .error e => some (.ofFile "Failed to create metrics file at " o.metricsOut e)
          | .ok _ => none
        files := match fs.creatable o.metricsOut with
          | .error _ => fs
          | .ok place => fs.holding place (Report.ofTrace t).text } := by
  unfold analyze
  rw [report_of_check h.loaded h.verified, h.consistent]
  simp only [List.isEmpty_iff, h.routes, if_false]
  cases hplace : fs.creatable o.metricsOut with
  | error e => rw [Report.save, Files.save_error hplace]
  | ok place => rw [Report.save, Files.save_ok hplace]

/-- Any options, and any files before it. An analysis stops at the first stage that fails, with the
    failure of that stage, nothing printed and no file changed, or its trace passes. Then, where the metrics
    path cannot be created, it fails for that, and no file is changed; and where it can, the analysis
    succeeds and changes the metrics file alone, which holds the page of the report on the trace. That is
    loaded as the report exactly where all reals of the report are read back, if its routes and its
    choices can be counted. -/
theorem analyze_saves_only_sound_reports (o : AnalyzeOptions) (fs : Files) :
    ((∃ e, Stops o fs e) ∨ ∃ t, Passes o fs t) ∧
      (∀ e, Stops o fs e → analyze o fs = { failure := some e, files := fs }) ∧
      ∀ t, Passes o fs t →
        let outcome := analyze o fs
        let report := Report.ofTrace t
        let bytes := Utf8.encode report.page
        (∀ e, fs.creatable o.metricsOut = .error e →
          outcome.failure = some (.ofFile "Failed to create metrics file at " o.metricsOut e) ∧ outcome.files = fs) ∧
        ∀ place, fs.creatable o.metricsOut = .ok place →
          outcome.failure = none ∧ outcome.files = fs.put place (.file bytes) ∧
            outcome.files.read o.metricsOut = .ok bytes ∧
            (t.routes.length < UInt64.size → (t.routes.flatMap (·.experts)).length < UInt64.size →
              (Report.load outcome.files o.metricsOut = .ok report ↔
                ∀ x ∈ report.metrics.reals, Json.ReadsBack x)) := by
  refine ⟨stops_or_passes o fs, fun e => Stops.outcome, ?_⟩
  intro t hpasses outcome report bytes
  have houtcome : outcome = _ := hpasses.outcome
  have hbytes : bytes = Utf8.encode report.text := by rw [report.text_eq_page]
  refine ⟨fun e hplace => ?_, fun place hplace => ?_⟩
  · rw [houtcome, hplace]
    exact ⟨rfl, rfl⟩
  · rw [houtcome, hplace, hbytes]
    refine ⟨rfl, rfl, Files.read_write hplace _, fun hroutes hchoices => ?_⟩
    have hreport : report.InRange := Report.ofTrace_inRange hroutes hchoices
    exact (Report.load_holding_iff hreport hplace report).trans report.reread?_eq_self_iff

/-- A trace whose two routes have fewer experts than its header says, and metrics from before: a strict
    analysis keeps them, and one that is not strict replaces them. Only the entropy of the new
    page is the machine's to say. -/
theorem a_refused_trace_keeps_the_metrics :
    let header : Header := { modelId := "m", engineVersion := "e", runtimeVersion := "r", device := "cpu", seed := none,
                             layersLogged := [0], topK := 2, numExperts := 4 }
    let half := Binary.ofDecimal binary64 false 5 (-1)
    let t : Trace := ⟨header, [⟨"a", 0, 0, [0], [half]⟩, ⟨"b", 0, 0, [0], [half]⟩]⟩
    let trace := Entry.file (Writer.lines (.header header :: t.routes.map .route))
    let fs := (Files.empty.put ⟨.above 0, ["trace"]⟩ trace).put ⟨.above 0, ["metrics"]⟩ (.file [111, 108, 100])
    let options (strict : Bool) : AnalyzeOptions := { trace := "trace", metricsOut := "metrics", strict }
    let entropy := Json.ofReal (Report.ofTrace t).metrics.entropy
    (analyze (options true) fs).failure =
        some ⟨"Routing trace failed verification", some (.trace (.inconsistent 0 (.width 1 2)))⟩ ∧
      (analyze (options true) fs).files.read "metrics" = .ok [111, 108, 100] ∧
      (analyze (options false) fs).failure = none ∧
      (analyze (options false) fs).files.read "metrics" = .ok (Utf8.encode (
        "\x7b\n  \"top_3_experts\": [\n    \x7b\n      \"expert_id\": 0,\n      \"count\": 2,\n".toList ++
        "      \"probability\": 1.0\n    \x7d\n  ],\n  \"shannon_entropy_bits\": ".toList ++ entropy.compact ++
        ",\n  \"max_entropy_bits\": 0.0,\n  \"normalized_entropy\": 0.0,\n  \"total_selections\": 2,\n".toList ++
        "  \"num_experts\": 1,\n  \"load_balance\": \"high_specialization\",\n".toList ++
        "  \"tokens_processed\": 2,\n  \"requests\": 2,\n  \"expert_counts\": [\n    2\n  ]\n\x7d\n".toList)) := by
  intro header half t trace fs options entropy
  have hload : Trace.load fs "trace" = .ok t := by decide +kernel
  have hverify : Trace.verify t = .error (.inconsistent 0 (.width 1 2)) := by decide +kernel
  have hplace : fs.creatable "metrics" = .ok ⟨.above 0, ["metrics"]⟩ := by decide +kernel
  have hcheck : (Report.ofTrace t).check = .ok () := by
    rw [Report.check_ofTrace]
    decide +kernel
  obtain ⟨-, hstops, -⟩ := analyze_saves_only_sound_reports (options true) fs
  obtain ⟨-, -, hpasses⟩ := analyze_saves_only_sound_reports (options false) fs
  have hrefused := hstops _ (.unverified hload rfl hverify)
  obtain ⟨-, hsaved⟩ := hpasses _ ⟨hload, nofun, hcheck, nofun⟩
  obtain ⟨hdone, -, hread, -⟩ := hsaved _ hplace
  refine ⟨?_, ?_, hdone, hread.trans ?_⟩
  · rw [hrefused]
  · rw [hrefused]
    decide +kernel
  · have hcounts : (Report.ofTrace t).counts = [2] := by decide +kernel
    have htop : (Report.ofTrace t).metrics.top = [⟨0, 2, Metrics.probability 2 2⟩] := by
      have hbuild : Histogram.build t.routes = ⟨[2]⟩ := by decide +kernel
      have htotal : Histogram.total ⟨[2]⟩ = 2 := rfl
      simp [Report.ofTrace, hbuild, Metrics.compute, htotal, Metrics.topShares, Metrics.ranked, Metrics.topCount]
    have hreals : [Metrics.probability 2 2, (Report.ofTrace t).metrics.maxEntropy,
          (Report.ofTrace t).metrics.normalized].map (fun x => (Json.ofReal x).compact) =
        ["1.0".toList, "0.0".toList, "0.0".toList] := by
      decide +kernel
    have hrest : ((Report.ofTrace t).metrics.total, (Report.ofTrace t).metrics.numExperts, (Report.ofTrace t).tokens,
        (Report.ofTrace t).requests, (Report.ofTrace t).loadBalance) = (2, 1, 2, 2, .highSpecialization) := by
      decide +kernel
    simp only [List.map_cons, List.map_nil, List.cons.injEq, and_true] at hreals
    simp only [Prod.mk.injEq] at hrest
    obtain ⟨hone, hmax, hnormalized⟩ := hreals
    obtain ⟨htotal, hexperts, htokens, hrequests, hload⟩ := hrest
    rw [Report.page, htop, hcounts, hmax, hnormalized, htotal, hexperts, htokens, hrequests, hload]
    simp only [List.map_cons, List.map_nil, Share.page, hone]
    have hentropy : (Json.ofReal (Report.ofTrace t).metrics.entropy).compact = entropy.compact := rfl
    rw [hentropy]
    generalize entropy.compact = text
    -- the entropy is cut off on both sides, and the rest is computed
    simp only [block_cons, entry, List.flatMap_cons, List.flatMap_nil, List.append_assoc, List.cons_append,
      List.nil_append]
    set_option maxRecDepth 1000 in rfl

end ExpertRouting.Command
