/-
  ExpertRouting.Capture.Settings — where a run captures to, and which layer.

  Capture is on exactly when there is an output path. Settings come from two variables:
  the path without white space at its ends (nothing left means off), and the layer, which
  is zero when it is missing or no number.
-/

import ExpertRouting.Capture.Basic
import ExpertRouting.Files
import ExpertRouting.Text.Blank

namespace ExpertRouting

structure Settings where
  output : Option String := none
  layer : UInt64 := 0
  deriving DecidableEq, Repr

namespace Settings

def pathVariable : String := "MOE_ROUTE_LOG"

def layerVariable : String := "MOE_ROUTE_LOG_LAYER"

def word? (text : List Char) : Option UInt64 :=
  (natural? text).bind fun n => if n < UInt64.size then some (UInt64.ofNat n) else none

def ofVariables (lookup : String → Option String) : Settings where
  output := (lookup pathVariable).bind fun raw =>
    match Text.trim raw.toList with
    | [] => none
    | path => some (String.ofList path)
  layer := ((lookup layerVariable).bind fun raw => word? (Text.trim raw.toList)).getD 0

def enabled (s : Settings) : Bool := s.output.isSome

end Settings

/-- A sink on a file that is opened afresh, and the place of that file. Without a path, or
    when the file cannot be made, the sink is disabled. -/
def Capture.openFile (s : Settings) (fs : Files) : Capture × Option Place × Files :=
  match s.output with
  | none => (.disabled s.layer, none, fs)
  | some path =>
    match fs.openForTrace path with
    | (fs, .ok place) => (.onto {} s.layer, some place, fs)
    | (fs, .error _) => (.disabled s.layer, none, fs)

def Capture.stored (c : Capture) (place : Option Place) (fs : Files) : Files :=
  match place with
  | some p => fs.put p (.file c.writer.stream.bytes)
  | none => fs

end ExpertRouting
