/-
  ExpertRouting.Decimal.Shortest — the fewest decimal digits that read back.

  Every number of a format owns the reals that round to it: half a step to either side, a
  quarter step below a power of two, and the ends themselves when its significand is
  even. On the grid of decimals with `n` digits only the two neighbours of the number
  can be the nearest ones there, so the search asks, for `n = 1, 2, …`, whether one of
  them lies in that interval; the first grid with a hit wins, and of two hits the nearer;
  where both are as near, the writer says which way a tie goes.
-/

import ExpertRouting.Binary.Rounding
import ExpertRouting.Decimal.Digit

namespace ExpertRouting

structure Decimal where
  significand : Nat
  exponent : Int
  deriving DecidableEq, Repr

namespace Decimal

def leadingPower (a b : Nat) : Int :=
  if b ≤ a then (digits (a / b)).length - 1
  else
    let k := (digits (b / a)).length
    if b ≤ a * Nat.pow 10 (k - 1) then -((k - 1 : Nat) : Int) else -(k : Int)

/-- The reals that round to a number, as multiples of a quarter of the smallest step. -/
structure Interval where
  low : Nat
  value : Nat
  high : Nat
  closed : Bool

def interval (f : Format) (m p : Nat) : Interval where
  low := (4 * m - if m = Nat.pow 2 (f.precision - 1) ∧ 0 < p then 1 else 2) * Nat.pow 2 p
  value := 4 * m * Nat.pow 2 p
  high := (4 * m + 2) * Nat.pow 2 p
  closed := m % 2 == 0

def Interval.contains (i : Interval) (x : Nat) : Bool :=
  if i.closed then i.low ≤ x && x ≤ i.high else i.low < x && x < i.high

/-- Whether the lower of two neighbours is taken, `down` below the number and `rise` under the upper one. -/
def lowerWins (tie : Tie) (below down rise : Nat) : Bool :=
  down < rise || (down == rise && tie == .toEven && below % 2 == 0)

/-- The neighbour on the grid of multiples of `10 ^ power` that reads back, if one does;
    quarters of the smallest step are `1 / unit`. -/
def onGrid? (tie : Tie) (i : Interval) (unit : Nat) (power : Int) : Option Nat :=
  let up := Nat.pow 10 (-power).toNat
  let cell := unit * Nat.pow 10 power.toNat
  let i : Interval := ⟨i.low * up, i.value * up, i.high * up, i.closed⟩
  let below := i.value / cell
  let above := below + 1
  match i.contains (below * cell), i.contains (above * cell) with
  | true, true =>
    some (if lowerWins tie below (i.value - below * cell) (above * cell - i.value) then below else above)
  | true, false => some below
  | false, true => some above
  | false, false => none

/-- The first grid with a hit, from `10 ^ power` on to finer ones. -/
def search (tie : Tie) (i : Interval) (unit : Nat) : (grids : Nat) → (power : Int) → Decimal
  | 0, power => ⟨i.value / unit, power⟩
  | grids + 1, power =>
    match onGrid? tie i unit power with
    | some n => ⟨n, power⟩
    | none => search tie i unit grids (power - 1)

def trim : (fuel : Nat) → Decimal → Decimal
  | 0, d => d
  | fuel + 1, d => if d.significand % 10 = 0 then trim fuel ⟨d.significand / 10, d.exponent + 1⟩ else d

/-- The shortest decimal that reads back as the positive number with this significand and
    shift, the nearest one of that length; two that are as near are a tie. -/
def shortest (tie : Tie) (f : Format) (m p : Nat) : Decimal :=
  let i := interval f m p
  let unit := 4 * Nat.pow 2 f.unit
  trim (f.precision + 1) (search tie i unit (f.precision + 1) (leadingPower i.value unit))

end Decimal

end ExpertRouting
