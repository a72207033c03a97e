/-
  ExpertRouting.Usage.Entropy — how evenly the choices spread.

  The Shannon entropy in bits: the sum of `-p * log2 p` over the positive probabilities,
  taken in order; a sum that is not above zero counts as zero. `LoadBalance` reads the
  entropy as a share of the largest possible one.
-/

import ExpertRouting.Binary.Words

namespace ExpertRouting

def entropyTerm (p : Real64) : Real64 := -p * p.log2

def shannonEntropy (probabilities : List Real64) : Real64 :=
  let zero : Real64 := Binary.zero false
  let terms := (probabilities.filter fun p => zero.lt p).map entropyTerm
  let sum := terms.foldl (· + ·) zero
  if zero.lt sum then sum else zero

inductive LoadBalance where
  | nearPerfect
  | fairlyBalanced
  | moderateImbalance
  | highSpecialization
  deriving DecidableEq, Repr

namespace LoadBalance

def tenths (n : Nat) : Real64 := Binary.ofDecimal binary64 false n (-1)

/-- Above 0.9, 0.7, 0.5, or none of them. -/
def ofNormalized (x : Real64) : LoadBalance :=
  if (tenths 9).lt x then .nearPerfect
  else if (tenths 7).lt x then .fairlyBalanced
  else if (tenths 5).lt x then .moderateImbalance
  else .highSpecialization

def name : LoadBalance → String
  | .nearPerfect => "near_perfect"
  | .fairlyBalanced => "fairly_balanced"
  | .moderateImbalance => "moderate_imbalance"
  | .highSpecialization => "high_specialization"

def ofName? (s : String) : Option LoadBalance :=
  [nearPerfect, fairlyBalanced, moderateImbalance, highSpecialization].find? (·.name == s)

def description : LoadBalance → String
  | .nearPerfect => "near-perfect load balance across experts"
  | .fairlyBalanced => "fairly balanced, with moderate specialization"
  | .moderateImbalance => "moderate imbalance, some experts are preferred"
  | .highSpecialization => "high specialization, routing heavily favors specific experts"

end LoadBalance

end ExpertRouting
