/-
  ExpertRouting.Command.Run — what the commands do.

  A command takes the files as they are and gives back what it prints, how it fails and
  the files after it. `analyze` prints the report of a trace and saves it. `bench` drives
  the sink with a synthetic router and keeps the time; it comes in two parts, so that the
  time can be taken between them: `capture` is the run that is timed, `finish` books it.
-/

import ExpertRouting.Command.Options
import ExpertRouting.Report.Analyze
import ExpertRouting.Report.File
import ExpertRouting.Report.Summary
import ExpertRouting.Synthetic
import ExpertRouting.Timing

namespace ExpertRouting.Command

structure Outcome where
  output : String := ""
  failure : Option Failure := none
  files : Files

/-! ## Analyze -/

def analyze (o : AnalyzeOptions) (fs : Files) : Outcome :=
  match Report.analyze fs o.trace o.strict with
  | .error e => { failure := some e, files := fs }
  | .ok (trace, report) =>
    if trace.routes.isEmpty then
      { failure := some ⟨"No routing records found in " ++ o.trace, none⟩, files := fs }
    else
      let output := Report.summary trace.header report ++ "\n"
      match report.save fs o.metricsOut with
      | .error e => { output, failure := some e, files := fs }
      | .ok fs => { output, files := fs }

/-! ## Bench -/

namespace Bench

def settings (o : BenchOptions) : Settings :=
  ⟨if o.noLog then none else some o.output, o.layer⟩

def mode (o : BenchOptions) : RunMode := if (settings o).enabled then .log else .noLog

def session (o : BenchOptions) : Session where
  modelId := "synthetic-router"
  shape := ⟨o.topK, o.experts⟩
  device := "cpu"
  seed := some o.seed

/-- The sizes of the batches that make up `tokens`: full ones, then the rest. -/
def batchSizes (size tokens : Nat) : List Nat :=
  List.replicate (tokens / size) size ++ (if tokens % size = 0 then [] else [tokens % size])

def drive (layer : UInt64) (r : Router) (c : Capture) : List Nat → Option Capture
  | [] => some c
  | n :: rest =>
    match r.routeBatch n with
    | none => none
    | some (rows, r) => drive layer r (c.recordBatch layer (.ofRows rows) none).2 rest

/-- The run that is timed: the trace is opened, then header, batches, close. The files
    after it, and the failure of a shape that is refused; none if the run never ends. -/
def capture (o : BenchOptions) (fs : Files) : Option (Except Failure Unit × Files) :=
  let (c, place, fs) := Capture.openFile (settings o) fs
  let c := (c.writeHeader (session o)).2
  match Router.ofSeed? o.seed (session o).shape with
  | none => some (.error ⟨Router.shapeMessage (session o).shape, none⟩, c.close.stored place fs)
  | some r =>
    match drive o.layer r c (batchSizes (max o.batch.toNat 1) o.tokens.toNat) with
    | none => none
    | some c => some (.ok (), c.close.stored place fs)

/-- The smallest time that a rate is taken over, in seconds: `2 ^ -52`. -/
def leastTime : Real64 := Binary.nearest binary64 false 1 (Nat.pow 2 52)

def timeLine (mode : RunMode) (tokens : Nat) (elapsed : Duration) : String :=
  let seconds := elapsed.toReal
  let rate := Binary.ofNat binary64 tokens / (if seconds.lt leastTime then leastTime else seconds)
  s!"{mode.name}: {decimal tokens} tokens in {fixedText 3 seconds}s ({fixedText 2 rate} tokens/sec)\n"

def overheadLine (t : TimingLog) : String :=
  match t.overhead with
  | some x => s!"Logging overhead: {fixedText 3 x.seconds}s ({fixedText 2 x.percent}%)\n"
  | none => ""

def finish (o : BenchOptions) (elapsed : Duration) (fs : Files) : Outcome :=
  let output := timeLine (mode o) o.tokens.toNat elapsed
  match TimingLog.load fs o.timing with
  | .error e => { output, failure := some e, files := fs }
  | .ok log =>
    let log := log.record (mode o) (.ofDuration elapsed o.tokens.toNat)
    match log.save fs o.timing with
    | .error e => { output, failure := some e, files := fs }
    | .ok fs => { output := output ++ overheadLine log, files := fs }

end Bench

/-- A whole bench run that takes this long; none if it never ends. -/
def bench (o : BenchOptions) (elapsed : Duration) (fs : Files) : Option Outcome :=
  match Bench.capture o fs with
  | none => none
  | some (.error e, fs) => some { failure := some e, files := fs }
  | some (.ok (), fs) => some (Bench.finish o elapsed fs)

end ExpertRouting.Command
