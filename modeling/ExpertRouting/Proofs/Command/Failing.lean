/-
  ExpertRouting.Proofs.Command.Failing — what a bench run leaves when it fails.

  Both checks of a run come late: the shape is looked at when the trace has been opened, which
  empties it, and the timing file is read when all batches have been written. A run that fails
  writes nothing after the check that failed (`captures_of_failure`), so the timing file and all
  other files are what they were. The trace is not: it is empty, or the whole trace of the run
  that failed (`failing_bench_changes_only_its_trace`). What was there before is lost either way
  (`a_failing_run_loses_the_trace_before_it`).
-/

import ExpertRouting.Proofs.Command.Capture

namespace ExpertRouting.Command

open Bench

variable {o : BenchOptions} {elapsed : Duration} {fs : Files} {outcome : Outcome} {e : Failure}

/-- A run that fails writes nothing after it was timed. -/
theorem captures_of_failure (hrun : bench o elapsed fs = some outcome) (hfail : outcome.failure = some e) :
    ∃ result, Captures o fs (Capture.openFile (settings o) fs).2.1 result outcome.files ∧
      (result = .error e ∨ result = .ok ()) := by
  obtain ⟨result, captured, hcapture, ⟨e', rfl, rfl⟩ | ⟨rfl, rfl⟩⟩ := bench_cases hrun
  · obtain rfl : e' = e := Option.some.inj hfail
    exact ⟨_, capture_captures hcapture, .inl rfl⟩
  · rcases finish_cases o elapsed captured with ⟨e', -, hfiles⟩ | ⟨log, place, -, -, hdone, -⟩
    · rw [hfiles]
      exact ⟨_, capture_captures hcapture, .inr rfl⟩
    · rw [hdone] at hfail
      cases hfail

/-- A bench run that ends and fails, with any options, after any time, on any files. Every folder is
    still one, and all files are those from before but for the trace, if one was opened; without
    capture nothing is changed at all. A path that read a file elsewhere, such as the timing path or
    the output path of a trace that could not be opened, reads the same bytes. A trace that was
    opened is empty if the shape is refused, which is then the failure, and otherwise is the whole
    trace of this run. -/
theorem failing_bench_changes_only_its_trace (hrun : bench o elapsed fs = some outcome)
    (hfail : outcome.failure = some e) :
    let trace := (Capture.openFile (settings o) fs).2.1
    fs.KeepsFiles trace outcome.files ∧
      (o.noLog = true → outcome.files = fs) ∧
      (∀ (p : Path) (bytes : List UInt8), fs.read p = .ok bytes →
        (∀ place, trace = some place → fs.locate p ≠ .ok place) → outcome.files.read p = .ok bytes) ∧
      ∀ place, trace = some place →
        if (session o).shape.sound then ∃ bytes, outcome.files.read o.output = .ok bytes ∧ WholeTrace o bytes
        else e = ⟨Router.shapeMessage (session o).shape, none⟩ ∧ outcome.files.read o.output = .ok [] := by
  obtain ⟨result, hcaptures, hresult⟩ := captures_of_failure hrun hfail
  intro trace
  refine ⟨hcaptures.keepsFiles, ?_, fun p bytes hread hother => hcaptures.keepsFiles.read hread hother, ?_⟩
  · intro hlog
    have hnone : (Capture.openFile (settings o) fs).2.1 = none := by simp [Capture.openFile, settings, hlog]
    rw [hnone] at hcaptures
    cases hcaptures with
    | unopened _ _ hsame => exact hsame hlog
  · intro place hplace
    rw [show (Capture.openFile (settings o) fs).2.1 = some place from hplace] at hcaptures
    generalize outcome.files = captured at hcaptures
    cases hcaptures with
    | refused _ hcreatable hshape =>
      have he : e = ⟨Router.shapeMessage (session o).shape, none⟩ := by
        rcases hresult with h | h
        · exact (Except.error.inj h).symm
        · cases h
      rw [hshape]
      exact ⟨he, Files.read_write hcreatable []⟩
    | written _ hcreatable hrouter hrows =>
      rw [if_pos (Router.ofSeed_eq_some hrouter).1]
      exact ⟨_, Files.read_write hcreatable _, wholeTrace_traceRecords hrouter hrows⟩

theorem a_refused_shape_keeps_the_timing_file :
    let o : BenchOptions := { output := "runs/trace.jsonl", topK := 9, experts := 8 }
    let fs := Files.empty.put ⟨.above 0, ["timing.json"]⟩ (.file [123, 125])
    ∃ outcome, bench o ⟨1, 140000000, by decide⟩ fs = some outcome ∧
      outcome.failure = some ⟨"top_k 9 is not within 1..=8", none⟩ ∧
      outcome.files.read "timing.json" = .ok [123, 125] ∧ outcome.files.read "runs/trace.jsonl" = .ok [] := by
  intro o fs
  have hends : (bench o ⟨1, 140000000, by decide⟩ fs).map (·.failure) =
      some (some ⟨"top_k 9 is not within 1..=8", none⟩) := by
    decide +kernel
  obtain ⟨outcome, hrun, hfail⟩ := Option.map_eq_some_iff.mp hends
  obtain ⟨-, -, hread, htrace⟩ := failing_bench_changes_only_its_trace hrun hfail
  have hplace : (Capture.openFile (settings o) fs).2.1 = some ⟨.above 0, ["runs", "trace.jsonl"]⟩ := by decide +kernel
  have hempty := htrace _ hplace
  rw [if_neg (by decide)] at hempty
  refine ⟨outcome, hrun, hfail, hread _ _ (by decide +kernel) ?_, hempty.2⟩
  intro place htaken hlocate
  obtain rfl := Option.some.inj (hplace.symm.trans htaken)
  exact absurd hlocate (by decide +kernel)

/-- A trace from before is emptied by a run whose shape is refused, and replaced by one whose timing
    file does not decode. -/
theorem a_failing_run_loses_the_trace_before_it :
    let fs := (Files.empty.put ⟨.above 0, ["old.jsonl"]⟩ (.file [111, 108, 100])).put ⟨.above 0, ["timing.json"]⟩
      (.file [120])
    let refused : BenchOptions := { output := "old.jsonl", topK := 9, experts := 8 }
    let unbooked : BenchOptions := { output := "old.jsonl", tokens := 0 }
    let ending (o : BenchOptions) := (bench o ⟨1, 140000000, by decide⟩ fs).map fun outcome =>
      (outcome.failure.isSome, outcome.files.read o.output)
    fs.read "old.jsonl" = .ok [111, 108, 100] ∧ ending refused = some (true, .ok []) ∧
      ending unbooked = some (true, .ok (Record.line (.header ((session unbooked).header 0)))) := by
  decide +kernel

end ExpertRouting.Command
