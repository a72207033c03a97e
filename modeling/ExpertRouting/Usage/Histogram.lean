/-
  ExpertRouting.Usage.Histogram — how often each expert was chosen.

  Entry `i` counts the choices of expert `i`. The list grows as higher experts turn up, so
  it ends at the highest expert that was ever chosen.
-/

import ExpertRouting.Trace.Record

namespace ExpertRouting

structure Histogram where
  counts : List Nat
  deriving DecidableEq, Repr

namespace Histogram

/-- Adds one to entry `i`; a list that does not reach it is filled up with zeros. -/
def bump (counts : Array Nat) (i : Nat) : Array Nat :=
  if h : i < counts.size then counts.set i (counts[i] + 1)
  else (counts ++ Array.replicate (i - counts.size) 0).push 1

def ofExperts (experts : List UInt32) : Histogram :=
  ⟨(experts.foldl (fun counts e => bump counts e.toNat) #[]).toList⟩

def build (routes : List Route) : Histogram := ofExperts (routes.flatMap (·.experts))

def numExperts (h : Histogram) : Nat := h.counts.length

def sum (counts : List Nat) : Nat := counts.foldr (· + ·) 0

def total (h : Histogram) : Nat := sum h.counts

def isEmpty (h : Histogram) : Bool := h.counts.isEmpty

end Histogram

end ExpertRouting
