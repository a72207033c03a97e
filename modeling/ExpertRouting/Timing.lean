/-
  ExpertRouting.Timing — how long runs took with and without capture.

  The timing file has at most one entry for either mode, and a run replaces the entry of
  its own mode alone. A missing file is an empty log. The overhead compares both entries,
  if the run without capture took any time at all.
-/

import ExpertRouting.Failure
import ExpertRouting.Json.Field

namespace ExpertRouting

open Json

inductive RunMode where
  | log
  | noLog
  deriving DecidableEq, Repr

def RunMode.name : RunMode → String
  | .log => "Log"
  | .noLog => "NoLog"

/-- A span of time: whole seconds, and billionths that make up less than one more. -/
structure Duration where
  seconds : Nat
  nanoseconds : Nat
  nanoseconds_lt : nanoseconds < 1000000000
  deriving DecidableEq, Repr

/-- A span of some seconds and some billionths; whole seconds of the latter are carried. -/
def Duration.of (seconds nanoseconds : Nat) : Duration where
  seconds := seconds + nanoseconds / 1000000000
  nanoseconds := nanoseconds % 1000000000
  nanoseconds_lt := Nat.mod_lt _ (by decide)

def Duration.toReal (d : Duration) : Real64 :=
  Binary.ofNat binary64 d.seconds + Binary.ofNat binary64 d.nanoseconds / Binary.ofNat binary64 1000000000

structure RunTiming where
  seconds : Real64
  tokens : Nat
  deriving DecidableEq

def RunTiming.ofDuration (d : Duration) (tokens : Nat) : RunTiming := ⟨d.toReal, tokens⟩

structure Overhead where
  seconds : Real64
  percent : Real64
  deriving DecidableEq

structure TimingLog where
  log : Option RunTiming := none
  noLog : Option RunTiming := none
  deriving DecidableEq

/-! ## Writing -/

def RunTiming.toJson (t : RunTiming) : Json :=
  .object [("wall_time_sec", .ofReal t.seconds), ("tokens_generated", .ofNat t.tokens)]

namespace TimingLog

/-- The member of an entry; a missing entry has none. -/
def member (key : String) : Option RunTiming → List (String × Json)
  | some t => [(key, t.toJson)]
  | none => []

def toJson (t : TimingLog) : Json := .object (member "log" t.log ++ member "no_log" t.noLog)

def text (t : TimingLog) : List Char := t.toJson.pretty

end TimingLog

/-! ## Reading -/

structure RunTiming.Slots where
  seconds : Slot Real64 := none
  tokens : Slot Nat := none

def RunTiming.Slots.take (s : RunTiming.Slots) (key : String) (r : Reading) : Except Fault RunTiming.Slots :=
  match key with
  | "wall_time_sec" => do return { s with seconds := ← fill s.seconds real r }
  | "tokens_generated" => do return { s with tokens := ← fill s.tokens (naturalBelow UInt64.size) r }
  | _ => skip s r

def RunTiming.Slots.timing (s : RunTiming.Slots) : Except Fault RunTiming := do
  return ⟨← required s.seconds, ← required s.tokens⟩

def RunTiming.ofReading : Decoder RunTiming
  | .object members stop => do (← foldMembers RunTiming.Slots.take {} stop members).timing
  | .array items stop => do
    let (seconds, rest) ← item real ⟨items, stop⟩
    let (tokens, rest) ← item (naturalBelow UInt64.size) rest
    endItems .malformed rest ⟨seconds, tokens⟩
  | r => otherKind r

namespace TimingLog

structure Slots where
  log : Slot (Option RunTiming) := none
  noLog : Slot (Option RunTiming) := none

def Slots.take (s : Slots) (key : String) (r : Reading) : Except Fault Slots :=
  match key with
  | "log" => do return { s with log := ← fill s.log (nullable RunTiming.ofReading) r }
  | "no_log" => do return { s with noLog := ← fill s.noLog (nullable RunTiming.ofReading) r }
  | _ => skip s r

def Slots.timings (s : Slots) : TimingLog := ⟨s.log.getD none, s.noLog.getD none⟩

/-- Both entries may be missing, also at the end of an array. -/
def ofReading : Decoder TimingLog
  | .object members stop => do return (← foldMembers Slots.take {} stop members).timings
  | .array items stop => do
    let (log, rest) ← itemOr none (nullable RunTiming.ofReading) ⟨items, stop⟩
    let (noLog, rest) ← itemOr none (nullable RunTiming.ofReading) rest
    endItems .malformed rest ⟨log, noLog⟩
  | r => otherKind r

def decode (text : List Symbol) : Except Fault TimingLog := decodeText ofReading text

/-- Reads a timing file; where nothing is found the log is empty. -/
def load (fs : Files) (path : Path) : Except Failure TimingLog :=
  if fs.missing path then .ok {}
  else fs.decode path "Failed to open timing file at " "Failed to parse timing file at " decode

def save (t : TimingLog) (fs : Files) (path : Path) : Except Failure Files :=
  fs.save path "Failed to create timing file at " t.text

/-! ## Entries -/

def record (t : TimingLog) (mode : RunMode) (timing : RunTiming) : TimingLog :=
  match mode with
  | .log => { t with log := some timing }
  | .noLog => { t with noLog := some timing }

/-- What capture costs: the seconds that it adds, and their share of the run without it. -/
def overhead (t : TimingLog) : Option Overhead := do
  let log ← t.log
  let noLog ← t.noLog
  if noLog.seconds.le (Binary.zero false) then none
  else
    let seconds := log.seconds - noLog.seconds
    some ⟨seconds, seconds / noLog.seconds * Binary.ofNat binary64 100⟩

end TimingLog

end ExpertRouting
