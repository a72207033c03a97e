/-
  ExpertRouting.Json.Number — what a numeral is worth.

  A numeral without point and power is an integer if it fits 64 bits, signed when it is
  negative. Every other one is a real, and reals are read in three steps: the leading
  digits that fit 64 bits make a significand, further whole digits count as tens and
  further decimals are dropped; the significand is rounded to a real; and that real is
  multiplied or divided once by a power of ten. Each step rounds, so a numeral of
  seventeen digits may come back as a neighbour of the real nearest to it. A real beyond
  the largest is refused.
-/

import ExpertRouting.Binary.Arithmetic
import ExpertRouting.Json.Token

namespace ExpertRouting.Json

/-- The value of a numeral. A negative integer is kept by its absolute value. -/
inductive Number where
  | natural (n : Nat)
  | negative (n : Nat)
  | real (x : Real64)
  deriving DecidableEq

/-- Appends digits to a significand as long as it fits 64 bits; the digits left over. -/
def takeFitting (significand : Nat) : List Digit → Nat × List Digit
  | [] => (significand, [])
  | d :: ds =>
    let next := 10 * significand + d.val
    if next < UInt64.size then takeFitting next ds else (significand, d :: ds)

def maxPower : Nat := 308

def powerOfTen (n : Nat) : Real64 := Binary.ofDecimal binary64 false 1 n

/-- Divides by a power of ten, a `maxPower` at a time; `rounds` of them come first. -/
def divideByPower (x : Real64) (n : Nat) : (rounds : Nat) → Real64
  | 0 => x / powerOfTen n
  | rounds + 1 => if x.isZero then x else divideByPower (x / powerOfTen maxPower) n rounds

def scale? (significand : Nat) (power : Int) : Option Real64 :=
  let x := Binary.ofNat binary64 significand
  let n := power.natAbs
  if power < 0 then some (divideByPower x ((n - 1) % maxPower + 1) ((n - 1) / maxPower))
  else if n ≤ maxPower then
    let y := x * powerOfTen n
    if y.isInfinite then none else some y
  else if x.isZero then some x
  else none

def powerValue : Option PowerOfTen → Int
  | none => 0
  | some p => if p.negative then -(Digit.value p.digits : Int) else Digit.value p.digits

def realValue? (n : Numeral) : Option Real64 :=
  let (whole, tens) := takeFitting 0 n.whole
  let (significand, dropped) := takeFitting whole n.fraction
  let places : Int := n.fraction.length - dropped.length
  (scale? significand (tens.length - places + powerValue n.power)).map fun x => if n.negative then -x else x

def isInteger (n : Numeral) : Bool := n.fraction.isEmpty && n.power.isNone

def value? (n : Numeral) : Option Number :=
  let size := Digit.value n.whole
  if isInteger n && !n.negative && size < UInt64.size then some (.natural size)
  else if isInteger n && n.negative && 0 < size && size ≤ UInt64.size / 2 then some (.negative size)
  else (realValue? n).map .real

def Number.toReal : Number → Real64
  | .natural n => Binary.ofNat binary64 n
  | .negative n => -Binary.ofNat binary64 n
  | .real x => x

end ExpertRouting.Json
