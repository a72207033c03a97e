/-
  ExpertRouting.Capture.Shape — the shape of routing, and what a run says of itself.

  A shape is how many experts a token gets out of how many. `Session` is what is known
  when a run starts; with the logged layer it becomes the header of the trace.
-/

import ExpertRouting.Trace.Record

namespace ExpertRouting

structure Shape where
  topK : UInt64
  numExperts : UInt64
  deriving DecidableEq, Repr

/-- At least one expert a token, and no more than there are. -/
def Shape.sound (s : Shape) : Bool := 0 < s.topK && s.topK ≤ s.numExperts

structure Session where
  modelId : String
  shape : Shape
  device : String
  seed : Option UInt64 := none
  engineVersion : String := "moe-route-trace 0.1.0"
  runtimeVersion : String := "unknown"
  deriving DecidableEq, Repr

def Session.header (s : Session) (layer : UInt64) : Header where
  modelId := s.modelId
  engineVersion := s.engineVersion
  runtimeVersion := s.runtimeVersion
  device := s.device
  seed := s.seed
  layersLogged := [layer]
  topK := s.shape.topK
  numExperts := s.shape.numExperts

end ExpertRouting
