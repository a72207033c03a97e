/-
  ExpertRouting.Usage.Metrics — what a histogram says about the use of experts.

  The three experts chosen most often, by falling count and among equals by rising id;
  the entropy of the choices, the largest entropy that many experts allow, and their
  quotient. Without a choice every figure but the number of experts is zero.
-/

import ExpertRouting.Usage.Entropy
import ExpertRouting.Usage.Histogram

namespace ExpertRouting

structure Share where
  expert : Nat
  count : Nat
  probability : Real64
  deriving DecidableEq

structure Metrics where
  top : List Share
  entropy : Real64
  maxEntropy : Real64
  normalized : Real64
  total : Nat
  numExperts : Nat
  deriving DecidableEq

namespace Metrics

def topCount : Nat := 3

def probability (total count : Nat) : Real64 := Binary.ofNat binary64 count / Binary.ofNat binary64 total

/-- Experts with their counts, the most frequent first, equal ones by rising id. -/
def ranked (counts : List Nat) : List (Nat × Nat) := counts.zipIdx.mergeSort fun a b => b.1 ≤ a.1

def topShares (counts : List Nat) (total : Nat) : List Share :=
  ((ranked counts).take topCount).map fun p => ⟨p.2, p.1, probability total p.1⟩

/-- The entropy of `n` experts chosen equally often. -/
def evenEntropy (n : Nat) : Real64 := if 1 < n then (Binary.ofNat binary64 n).log2 else Binary.zero false

/-- An entropy as a share of the largest; zero where there is nothing to share. -/
def normalize (entropy maxEntropy : Real64) : Real64 :=
  if (Binary.zero false : Real64).lt maxEntropy then entropy / maxEntropy else Binary.zero false

def none (numExperts : Nat) : Metrics :=
  ⟨[], Binary.zero false, Binary.zero false, Binary.zero false, 0, numExperts⟩

def compute (h : Histogram) : Metrics :=
  let total := h.total
  if total = 0 then none h.numExperts
  else
    let entropy := shannonEntropy (h.counts.map (probability total))
    let maxEntropy := evenEntropy h.numExperts
    { top := topShares h.counts total
      entropy
      maxEntropy
      normalized := normalize entropy maxEntropy
      total
      numExperts := h.numExperts }

def hasData (m : Metrics) : Bool := 0 < m.total

def loadBalance (m : Metrics) : LoadBalance := .ofNormalized m.normalized

end Metrics

end ExpertRouting
