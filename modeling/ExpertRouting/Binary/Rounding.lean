/-
  ExpertRouting.Binary.Rounding — the number of a format nearest a fraction.

  `roundDiv` is the one rounding of naturals, with the way of ties as a parameter.
  `nearest f s a b` is `± a / b` rounded to the format: counted in smallest steps the
  fraction is `a * 2 ^ unit / b`; its integer part says how often the step has to be
  doubled for the significand to fit, and the rest is `roundDiv` with ties to even. What
  does not fit the format after that is infinite.
-/

import ExpertRouting.Binary.Format

namespace ExpertRouting

inductive Tie where
  | toEven
  | away
  deriving DecidableEq, Repr

def roundDiv (tie : Tie) (a b : Nat) : Nat :=
  let low := a / b
  let rest := 2 * (a % b)
  if rest < b then low
  else if rest = b then
    match tie with
    | .toEven => if low % 2 = 0 then low else low + 1
    | .away => low + 1
  else low + 1

namespace Binary

variable {f : Format}

/-- The number with this significand and shift where the format has it, else infinity. -/
def ofParts (f : Format) (negative : Bool) (significand shift : Nat) : Binary f :=
  if h : f.Canonical significand shift then .finite negative significand shift h
  else .infinite negative

/-- How often the smallest step is doubled at `steps` of them. -/
def shiftFor (f : Format) (steps : Nat) : Nat := steps.log2 + 1 - f.precision

def nearest (f : Format) (negative : Bool) (a b : Nat) : Binary f :=
  let total := a * Nat.pow 2 f.unit
  let shift := shiftFor f (total / b)
  let significand := roundDiv .toEven total (b * Nat.pow 2 shift)
  if significand = Nat.pow 2 f.precision then ofParts f negative (Nat.pow 2 (f.precision - 1)) (shift + 1)
  else ofParts f negative significand shift

def ofNat (f : Format) (n : Nat) : Binary f := nearest f false n 1

def ofInt (f : Format) (n : Int) : Binary f := nearest f (n < 0) n.natAbs 1

def ofDecimal (f : Format) (negative : Bool) (digits : Nat) (exponent : Int) : Binary f :=
  if exponent < 0 then nearest f negative digits (Nat.pow 10 exponent.natAbs)
  else nearest f negative (digits * Nat.pow 10 exponent.natAbs) 1

/-- The number of another format nearest this one. Widening changes no value. -/
def convert {f : Format} (g : Format) : Binary f → Binary g
  | .nan => .nan
  | .infinite s => .infinite s
  | .finite s m p _ => nearest g s (m * Nat.pow 2 p) (Nat.pow 2 f.unit)

end Binary

abbrev Real64 := Binary binary64

abbrev Real32 := Binary binary32

end ExpertRouting
