/-
  ExpertRouting.Trace.Record — the records of a routing trace.

  A trace has one header, which names the model, the run and the shape of its routing
  (`topK` of `numExperts` experts a token), and one route for every token that passed the
  logged layer: which experts were chosen and with which weights. Weights are kept to six
  decimal places.

  A record is written as one line of JSON, its kind first and its fields in a fixed order.
-/

import ExpertRouting.Binary.Arithmetic
import ExpertRouting.Json.Value
import ExpertRouting.Text.Utf8

namespace ExpertRouting

structure Header where
  modelId : String
  engineVersion : String
  runtimeVersion : String
  device : String
  seed : Option UInt64
  layersLogged : List UInt64
  topK : UInt64
  numExperts : UInt64
  deriving DecidableEq, Repr

/-- The choice of experts for one token at one layer. -/
structure Route where
  requestId : String
  /-- The position of the token in its request. -/
  token : UInt64
  layer : UInt64
  experts : List UInt32
  weights : List Real64
  deriving DecidableEq

def Route.width (r : Route) : Nat := r.experts.length

inductive Record where
  | header (h : Header)
  | route (r : Route)
  deriving DecidableEq

def Record.header? : Record → Option Header
  | .header h => some h
  | .route _ => none

def Record.route? : Record → Option Route
  | .header _ => none
  | .route r => some r

def weightScale : Real64 := Binary.ofNat binary64 1000000

/-- A weight to six decimal places: scaled, rounded to an integer, scaled back. -/
def roundWeight (w : Real64) : Real64 := (w * weightScale).roundToInteger / weightScale

namespace Record

def word (n : UInt64) : Json := Json.ofNat n.toNat

def headerFields (h : Header) : List (String × Json) :=
  [("model_id", .string h.modelId), ("engine_version", .string h.engineVersion),
   ("runtime_version", .string h.runtimeVersion), ("device", .string h.device),
   ("seed", match h.seed with | some s => word s | none => .null),
   ("layers_logged", .array (h.layersLogged.map word)), ("top_k", word h.topK),
   ("num_experts", word h.numExperts)]

def routeFields (r : Route) : List (String × Json) :=
  [("req_id", .string r.requestId), ("token_idx", word r.token), ("layer", word r.layer),
   ("topk_ids", .array (r.experts.map fun e => Json.ofNat e.toNat)),
   ("topk_weights", .array (r.weights.map Json.ofReal))]

def toJson : Record → Json
  | .header h => .object (("type", .string "meta") :: headerFields h)
  | .route r => .object (("type", .string "route") :: routeFields r)

def text (r : Record) : List Char := r.toJson.compact

def line (r : Record) : List UInt8 := Utf8.encode (r.text ++ ['\n'])

end Record

end ExpertRouting
