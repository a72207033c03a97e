/-
  ExpertRouting.Binary.Words — numbers as bit patterns.

  The interchange layout: a sign bit, then the shift plus one (zero while the significand
  is not full), then the significand without its leading digit. An all-ones exponent is an
  infinity or not-a-number. The binary logarithm is taken by the machine on that pattern.
-/

import ExpertRouting.Binary.Arithmetic

namespace ExpertRouting.Binary

variable {f : Format}

def ofBits (f : Format) (word : Nat) : Binary f :=
  let hidden := Nat.pow 2 (f.precision - 1)
  let field := word / hidden % (f.maxShift + 3)
  let fraction := word % hidden
  let negative := word / (hidden * (f.maxShift + 3)) % 2 == 1
  if field = f.maxShift + 2 then (if fraction = 0 then .infinite negative else .nan)
  else if field = 0 then ofParts f negative fraction 0
  else ofParts f negative (hidden + fraction) (field - 1)

def toBits : Binary f → Nat
  | .nan => (f.maxShift + 2) * Nat.pow 2 (f.precision - 1) + Nat.pow 2 (f.precision - 2)
  | .infinite s => signBit s + (f.maxShift + 2) * Nat.pow 2 (f.precision - 1)
  | .finite s m p _ => signBit s + if m < Nat.pow 2 (f.precision - 1) then m else p * Nat.pow 2 (f.precision - 1) + m
where
  signBit (s : Bool) : Nat := if s then (f.maxShift + 3) * Nat.pow 2 (f.precision - 1) else 0

/-- The binary logarithm, as the machine computes it. -/
def log2 (x : Real64) : Real64 :=
  ofBits binary64 (Float.ofBits x.toBits.toUInt64).log2.toBits.toNat

end ExpertRouting.Binary
