/-
  ExpertRouting.Trace.Decode — reading a record back.

  The kind of a record (`type`) may stand anywhere in its object, so the object is first
  read to its closing bracket: the kind is taken when it is met, every other member is
  checked to be sound JSON. Then the members are decoded as the fields of that kind.
  Members that are no field are ignored, and two fields have a second name each. A record
  may also be an array: its kind, then its fields in order.
-/

import ExpertRouting.Json.Field
import ExpertRouting.Trace.Record

namespace ExpertRouting

open Json

/-! ## Headers -/

structure HeaderSlots where
  modelId : Slot String := none
  engineVersion : Slot String := none
  runtimeVersion : Slot String := none
  device : Slot String := none
  seed : Slot (Option UInt64) := none
  layersLogged : Slot (List UInt64) := none
  topK : Slot UInt64 := none
  numExperts : Slot UInt64 := none

def HeaderSlots.take (s : HeaderSlots) (key : String) (r : Reading) : Except Fault HeaderSlots :=
  match key with
  | "model_id" => do return { s with modelId := ← fill s.modelId text r }
  | "engine_version" | "vllm_version" => do return { s with engineVersion := ← fill s.engineVersion text r }
  | "runtime_version" | "torch_version" => do return { s with runtimeVersion := ← fill s.runtimeVersion text r }
  | "device" => do return { s with device := ← fill s.device text r }
  | "seed" => do return { s with seed := ← fill s.seed (nullable word64) r }
  | "layers_logged" => do return { s with layersLogged := ← fill s.layersLogged (listOf word64) r }
  | "top_k" => do return { s with topK := ← fill s.topK word64 r }
  | "num_experts" => do return { s with numExperts := ← fill s.numExperts word64 r }
  | _ => skip s r

/-- The header that has these fields; only the seed may be missing. -/
def HeaderSlots.header (s : HeaderSlots) : Except Fault Header := do
  return { modelId := ← required s.modelId
           engineVersion := ← required s.engineVersion
           runtimeVersion := ← required s.runtimeVersion
           device := ← required s.device
           seed := s.seed.getD none
           layersLogged := ← required s.layersLogged
           topK := ← required s.topK
           numExperts := ← required s.numExperts }

def Header.ofItems (items : Items) : Except Fault Header := do
  let (modelId, items) ← item text items
  let (engineVersion, items) ← item text items
  let (runtimeVersion, items) ← item text items
  let (device, items) ← item text items
  let (seed, items) ← item (nullable word64) items
  let (layersLogged, items) ← item (listOf word64) items
  let (topK, items) ← item word64 items
  let (numExperts, items) ← item word64 items
  endItems .mismatch items
    { modelId, engineVersion, runtimeVersion, device, seed, layersLogged, topK, numExperts }

/-! ## Routes -/

structure RouteSlots where
  requestId : Slot String := none
  token : Slot UInt64 := none
  layer : Slot UInt64 := none
  experts : Slot (List UInt32) := none
  weights : Slot (List Real64) := none

def RouteSlots.take (s : RouteSlots) (key : String) (r : Reading) : Except Fault RouteSlots :=
  match key with
  | "req_id" => do return { s with requestId := ← fill s.requestId text r }
  | "token_idx" => do return { s with token := ← fill s.token word64 r }
  | "layer" => do return { s with layer := ← fill s.layer word64 r }
  | "topk_ids" => do return { s with experts := ← fill s.experts (listOf word32) r }
  | "topk_weights" => do return { s with weights := ← fill s.weights (listOf real) r }
  | _ => skip s r

def RouteSlots.route (s : RouteSlots) : Except Fault Route := do
  return { requestId := ← required s.requestId
           token := ← required s.token
           layer := ← required s.layer
           experts := ← required s.experts
           weights := ← required s.weights }

def Route.ofItems (items : Items) : Except Fault Route := do
  let (requestId, items) ← item text items
  let (token, items) ← item word64 items
  let (layer, items) ← item word64 items
  let (experts, items) ← item (listOf word32) items
  let (weights, items) ← item (listOf real) items
  endItems .mismatch items { requestId, token, layer, experts, weights }

/-! ## Records -/

namespace Record

inductive Kind where
  | header
  | route
  deriving DecidableEq, Repr

def Kind.decode : Decoder Kind := fun r => do
  match ← Json.text r with
  | "meta" => .ok .header
  | "route" => .ok .route
  | _ => .error .mismatch

/-- The kind of a record once it is met, and its other members, newest first. -/
structure Gathered where
  kind : Slot Kind := none
  members : List (Key × Reading) := []

def Gathered.take (g : Gathered) (key : String) (r : Reading) : Except Fault Gathered :=
  if key = "type" then do return { g with kind := ← fill g.kind Kind.decode r }
  else refuse (r.fault? (maxDepth - 1)) (.ok { g with members := (some key, r) :: g.members })

def ofMembers (kind : Kind) (members : List (Key × Reading)) : Except Fault Record :=
  match kind with
  | .header => do return .header (← (← foldMembers HeaderSlots.take {} none members).header)
  | .route => do return .route (← (← foldMembers RouteSlots.take {} none members).route)

def ofItems (kind : Kind) (items : List Reading) : Except Fault Record :=
  match kind with
  | .header => do return .header (← Header.ofItems ⟨items, none⟩)
  | .route => do return .route (← Route.ofItems ⟨items, none⟩)

def ofReading : Decoder Record
  | .object members stop => do
    let g ← foldMembers Gathered.take {} stop members
    ofMembers (← required g.kind) g.members.reverse
  | .array items stop => do
    let (kind, rest) ← item Kind.decode ⟨items, stop⟩
    refuse ((itemsFault? (maxDepth - 1) rest.items).or (wantedFault? stop)) (ofItems kind rest.items)
  | r => otherKind r

def decode (text : List Symbol) : Except Fault Record := decodeText ofReading text

end Record

end ExpertRouting
