/-
  ExpertRouting.Report.Analyze — from a trace file to its report.

  The trace is loaded, verified if strictness is asked for, summed up, and the report is
  held against its own rules; the first stage that fails gives the failure.
-/

import ExpertRouting.Failure
import ExpertRouting.Report.Basic

namespace ExpertRouting.Report

def analyze (fs : Files) (path : Path) (strict : Bool) : Except Failure (Trace × Report) := do
  let trace ← match Trace.load fs path with
    | .ok t => pure t
    | .error e => throw ⟨"Failed to load routing trace at " ++ Text.quoted path.text, some (.trace e)⟩
  if strict then
    match trace.verify with
    | .ok () => pure ()
    | .error e => throw ⟨"Routing trace failed verification", some (.trace e)⟩
  let report := ofTrace trace
  match report.check with
  | .ok () => return (trace, report)
  | .error c => throw ⟨c.message, none⟩

end ExpertRouting.Report
