/-
  ExpertRouting.Proofs.Command.Booking — which entry a bench run replaces.

  The entry is chosen by what was asked for: `no_log` if capture was turned off, `log` otherwise.
  Whether a trace could be opened is only known to the sink. A sink that is enabled holds the
  whole trace of the run when the time is booked, and one that is disabled has made no file.
  So the entry tells what the sink did unless a trace was asked for and could not be opened
  (`booked_entry_tells_the_sink_iff`): such a run captures nothing and is booked as one that
  does (`a_run_without_a_trace_is_booked_as_logged`).
-/

import ExpertRouting.Proofs.Command.Capture

namespace ExpertRouting.Command

namespace Bench

variable {o : BenchOptions} {elapsed : Duration} {fs : Files}

theorem mode_eq (o : BenchOptions) : mode o = if o.noLog then .noLog else .log := by
  unfold mode settings Settings.enabled
  cases o.noLog <;> rfl

theorem mode_log_iff (o : BenchOptions) : mode o = .log ↔ o.noLog = false := by
  rw [mode_eq]
  cases o.noLog <;> simp

theorem openFile_enabled (s : Settings) (fs : Files) :
    (Capture.openFile s fs).1.enabled = (Capture.openFile s fs).2.1.isSome := by
  unfold Capture.openFile
  split
  · rfl
  · split <;> rfl

/-- The sink of a run is enabled if capture was not turned off and the trace could be opened. -/
theorem openFile_enabled_iff (o : BenchOptions) (fs : Files) :
    (Capture.openFile (settings o) fs).1.enabled = true ↔
      o.noLog = false ∧ ∃ opened trace, fs.openForTrace o.output = (opened, .ok trace) := by
  cases hlog : o.noLog with
  | true => simp [Capture.openFile, settings, hlog, Capture.disabled]
  | false =>
    rcases hopen : fs.openForTrace o.output with ⟨opened, e | trace⟩
    · simp [Capture.openFile, settings, hlog, hopen, Capture.disabled]
    · rw [openFile_of_opened hlog hopen]
      simp [Capture.onto]

end Bench

open Bench

/-- A bench run that succeeds, with any options, after any time, on any files. The timing log is loaded
    from the files that the capture left, and written back with the time of this run: in place of
    the entry without capture if capture was turned off, and of the one with capture otherwise; the
    other entry is kept. The sink was enabled if capture was not turned off and the trace could be
    opened. Then the output path reads the whole trace of this run, also when the time has been booked,
    unless that trace has no route and is the timing file; otherwise no file was made or changed before
    the time was booked. So the entry tells whether the sink was enabled exactly when a trace
    that was asked for could be opened. -/
theorem booked_entry_tells_the_sink_iff {o : BenchOptions} {elapsed : Duration} {fs : Files} {outcome : Outcome}
    (hrun : bench o elapsed fs = some outcome) (hdone : outcome.failure = none) :
    let sink := (Capture.openFile (settings o) fs).1
    let timing := RunTiming.ofDuration elapsed o.tokens.toNat
    ∃ captured before after place,
      capture o fs = some (.ok (), captured) ∧ TimingLog.load captured o.timing = .ok before ∧
      captured.creatable o.timing = .ok place ∧ outcome.files = captured.holding place after.text ∧
      after = (if o.noLog then { before with noLog := some timing } else { before with log := some timing }) ∧
      (sink.enabled = true ↔ o.noLog = false ∧ ∃ opened trace, fs.openForTrace o.output = (opened, .ok trace)) ∧
      (sink.enabled = true → ∃ opened trace bytes, fs.openForTrace o.output = (opened, .ok trace) ∧
        captured.read o.output = .ok bytes ∧ WholeTrace o bytes ∧
        ((o.tokens = 0 → place ≠ trace) → outcome.files.read o.output = .ok bytes)) ∧
      (sink.enabled = false → fs.KeepsFiles none captured) ∧
      ((mode o = .log ↔ sink.enabled = true) ↔
        (o.noLog = false → ∃ opened trace, fs.openForTrace o.output = (opened, .ok trace))) := by
  obtain ⟨result, captured, hcapture, ⟨e, rfl, rfl⟩ | ⟨rfl, rfl⟩⟩ := bench_cases hrun
  · cases hdone
  rcases finish_cases o elapsed captured with ⟨e, hfailed, -⟩ | ⟨before, place, hload, hplace, -, hfiles⟩
  · rw [hdone] at hfailed
    cases hfailed
  intro sink timing
  have hcaptures := capture_captures hcapture
  have henabled := openFile_enabled_iff o fs
  refine ⟨captured, before, before.record (mode o) timing, place, hcapture, hload, hplace, hfiles, ?_, henabled,
    ?_, ?_, ?_⟩
  · rw [mode_eq]
    cases o.noLog <;> rfl
  · intro hsink
    obtain ⟨hlog, opened, trace, hopen⟩ := henabled.mp hsink
    rw [openFile_of_opened hlog hopen] at hcaptures
    cases hcaptures with
    | written _ hcreatable hrouter hrows =>
      obtain ⟨-, hlocate, -⟩ := Files.creatable_ok_iff.mp hplace
      refine ⟨opened, trace, _, hopen, Files.read_write hcreatable _, wholeTrace_traceRecords hrouter hrows, ?_⟩
      intro hother
      refine finish_keeps_written hcreatable hrows (fun hzero hsame => hother hzero ?_) elapsed
      exact Except.ok.inj (hlocate.symm.trans hsame)
  · intro hsink
    rw [openFile_enabled] at hsink
    rw [Option.isNone_iff_eq_none.mp (Option.isSome_eq_false_iff.mp hsink)] at hcaptures
    exact hcaptures.keepsFiles
  · rw [mode_log_iff, henabled]
    exact iff_self_and

theorem three_tokens_are_booked_as_logged :
    let o : BenchOptions := { output := "runs/moe_routes.jsonl", tokens := 3, topK := 2, experts := 3, seed := 7 }
    let timing := RunTiming.ofDuration ⟨1, 140000000, by decide⟩ 3
    ∃ outcome, bench o ⟨1, 140000000, by decide⟩ Files.empty = some outcome ∧ outcome.failure = none ∧
      outcome.files.read "timing.json" = .ok (Utf8.encode (TimingLog.text { log := some timing })) ∧
      ∃ bytes, outcome.files.read "runs/moe_routes.jsonl" = .ok bytes ∧ WholeTrace o bytes := by
  intro o timing
  have hends : (bench o ⟨1, 140000000, by decide⟩ Files.empty).map (·.failure) = some none := by decide +kernel
  have hmissing : (capture o Files.empty).map (·.2.missing "timing.json") = some true := by decide +kernel
  obtain ⟨outcome, hrun, hdone⟩ := Option.map_eq_some_iff.mp hends
  obtain ⟨captured, before, after, place, hcapture, hload, hplace, hfiles, hafter, -, htrace, -, -⟩ :=
    booked_entry_tells_the_sink_iff hrun hdone
  have hsink : (Capture.openFile (settings o) Files.empty).1.enabled = true := by decide +kernel
  obtain ⟨opened, trace, bytes, -, -, hwhole, hkept⟩ := htrace hsink
  obtain rfl : before = {} := by
    rw [hcapture] at hmissing
    rw [TimingLog.load, if_pos (Option.some.inj hmissing)] at hload
    exact (Except.ok.inj hload).symm
  refine ⟨outcome, hrun, hdone, ?_, bytes, hkept (fun hzero => absurd hzero (by decide)), hwhole⟩
  rw [hfiles, hafter]
  exact Files.read_write hplace _

/-- A trace is asked for below a file. The run succeeds, captures nothing, and is booked as logged. -/
theorem a_run_without_a_trace_is_booked_as_logged :
    let fs := Files.empty.put ⟨.above 0, ["blocker"]⟩ (.file [120])
    let o : BenchOptions := { output := "blocker/trace.jsonl", tokens := 3 }
    let one := Binary.ofDecimal binary64 false 1 0
    (Capture.openFile (settings o) fs).1.enabled = false ∧
      (bench o ⟨1, 0, by decide⟩ fs).map (fun outcome =>
        (outcome.failure, (TimingLog.load outcome.files o.timing).toOption)) =
          some (none, some { log := some ⟨one, 3⟩, noLog := none }) := by
  decide +kernel

end ExpertRouting.Command
