/-
  ExpertRouting.Model.Config — the routing shape in a model's configuration.

  A configuration is a JSON object of which two numbers matter, each under more than one
  name: how many experts there are and how many a token gets. Either may be missing.
  Other members are passed over, whatever they hold. A path to a folder means the file
  `config.json` in it.
-/

import ExpertRouting.Capture.Shape
import ExpertRouting.Failure
import ExpertRouting.Json.Field

namespace ExpertRouting

open Json

structure ModelConfig where
  numExperts : Option UInt64
  expertsPerToken : Option UInt64
  deriving DecidableEq, Repr

namespace ModelConfig

structure Slots where
  numExperts : Slot (Option UInt64) := none
  expertsPerToken : Slot (Option UInt64) := none

def Slots.take (s : Slots) (key : String) (r : Reading) : Except Fault Slots :=
  match key with
  | "num_experts" | "num_local_experts" => do
    return { s with numExperts := ← fill s.numExperts (nullable word64) r }
  | "experts_per_token" | "num_experts_per_tok" | "moe_top_k" => do
    return { s with expertsPerToken := ← fill s.expertsPerToken (nullable word64) r }
  | _ => skip s r

def Slots.config (s : Slots) : ModelConfig := ⟨s.numExperts.getD none, s.expertsPerToken.getD none⟩

def ofReading : Decoder ModelConfig
  | .object members stop => do return (← foldMembers Slots.take {} stop members).config
  | .array items stop => do
    let (numExperts, rest) ← item (nullable word64) ⟨items, stop⟩
    let (expertsPerToken, rest) ← item (nullable word64) rest
    endItems .malformed rest ⟨numExperts, expertsPerToken⟩
  | r => otherKind r

def decode (text : List Symbol) : Except Fault ModelConfig := decodeText ofReading text

def load (fs : Files) (path : Path) : Except Failure ModelConfig :=
  let path := if fs.isFolder path then path.child "config.json" else path
  fs.decode path "Failed to open config.json at " "Failed to parse config.json at " decode

def experts? (c : ModelConfig) : Option UInt64 := c.numExperts.filter (0 < ·)

def supportsRouting (c : ModelConfig) : Bool := c.experts?.isSome

/-- A token gets this many experts where a configuration does not say. -/
def defaultTopK : UInt64 := 2

inductive ShapeError where
  | noExperts
  | topK (shape : Shape)
  deriving DecidableEq, Repr

def ShapeError.message : ShapeError → String
  | .noExperts => "model config does not declare any experts"
  | .topK s => s!"experts_per_token {decimal s.topK.toNat} is not within 1..={decimal s.numExperts.toNat}"

def shape (c : ModelConfig) : Except ShapeError Shape :=
  match c.experts? with
  | none => .error .noExperts
  | some numExperts =>
    let s : Shape := ⟨c.expertsPerToken.getD defaultTopK, numExperts⟩
    if s.sound then .ok s else .error (.topK s)

def session (c : ModelConfig) (modelId device : String) : Except ShapeError Session := do
  return { modelId, shape := ← c.shape, device }

end ModelConfig

end ExpertRouting
