/-
  ExpertRouting.Main — the program.

  The files that a command may touch are read into a value, the command runs on that, and
  what it changed is written back.
-/

import ExpertRouting.Command.Run

namespace ExpertRouting.Program

open Command

def entryAt (path : String) : IO (Option Entry) := do
  try
    let bytes ← IO.FS.readBinFile path
    return some (.file bytes.toList)
  catch
    | .noFileOrDirectory .. => return none
    | _ => return some .folder

def pathOf (place : Place) : String :=
  let names := "/".intercalate place.names
  match place.base with
  | .above n => String.join (List.replicate n "../") ++ names
  | .root => "/" ++ names

def placesOf (path : Path) : List Place :=
  let walk := path.parts.foldl (fun (places : List Place) part =>
    match part, places with
    | .name n, here :: _ => here.child n :: places
    | .up, here :: _ => here.up :: places
    | _, places => places) [path.start]
  walk.filter (!·.isBase)

/-- The files at some paths and on the way to them. -/
def snapshot (paths : List Path) : IO Files := do
  let mut fs := Files.empty
  for place in paths.flatMap placesOf do
    if let some e ← entryAt (pathOf place) then fs := fs.put place e
  return fs

/-- Writes back what a command changed. -/
def store (paths : List Path) (before after : Files) : IO Unit := do
  for place in (paths.flatMap fun p => (placesOf p).reverse) do
    if after.entry place != before.entry place then
      match after.entry place with
      | some .folder => IO.FS.createDirAll (pathOf place)
      | some (.file bytes) => IO.FS.writeBinFile (pathOf place) ⟨bytes.toArray⟩
      | none => pure ()

def causeLine : Cause → String
  | .file e => e.message
  | .text .truncated => "the text ends too early"
  | .text .malformed => "the text is not JSON"
  | .text .mismatch => "the text has another shape"
  | .trace e => e.message

def report (o : Outcome) : IO UInt32 := do
  IO.print o.output
  match o.failure with
  | none => return 0
  | some e =>
    IO.eprintln ("Error: " ++ e.message)
    if let some cause := e.cause then IO.eprintln ("\nCaused by:\n    " ++ causeLine cause)
    return 1

def runAnalyze (o : AnalyzeOptions) : IO UInt32 := do
  let paths : List Path := [o.trace, o.metricsOut]
  let before ← snapshot paths
  let outcome := analyze o before
  store paths before outcome.files
  report outcome

def runBench (o : BenchOptions) : IO UInt32 := do
  let paths : List Path := [o.output, o.timing]
  let before ← snapshot paths
  let start ← IO.monoNanosNow
  match Bench.capture o before with
  | none =>
    IO.eprintln "Error: the router never ends"
    return 1
  | some (.error e, after) =>
    store paths before after
    report { failure := some e, files := after }
  | some (.ok (), between) =>
    store paths before between
    let elapsed := (← IO.monoNanosNow) - start
    let outcome := Bench.finish o (Duration.of 0 elapsed) between
    store paths between outcome.files
    report outcome

end ExpertRouting.Program

open ExpertRouting Command in
def main (args : List String) : IO UInt32 := do
  match Request.ofArguments args with
  | none =>
    IO.eprintln "error: unexpected arguments"
    return 2
  | some (.help topic) =>
    IO.print topic.text
    return 0
  | some .version =>
    IO.print versionText
    return 0
  | some (.analyze o) => Program.runAnalyze o
  | some (.bench o) => Program.runBench o
