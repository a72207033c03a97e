/-
  ExpertRouting.Decimal.Layout — how a decimal is laid out.

  A `Layout` holds the choices a writer makes: which powers of ten are written with the
  point in place and which as a power, whether a whole number keeps its `.0`, and where the
  last digit goes when two decimals of the fewest digits are as near. The powers that are
  written out carry their sign. `fixedText` is the other form: a set number of places, the
  exact value rounded to them with ties to even.
-/

import ExpertRouting.Decimal.Numeral
import ExpertRouting.Decimal.Shortest

namespace ExpertRouting

structure Layout where
  /-- Whether a number whose first digit has this power of ten is written in place. -/
  inPlace : Int → Bool
  /-- Whether a whole number written in place ends in `.0`. -/
  pointZero : Bool
  /-- Where the last digit goes in a tie. -/
  tie : Tie

namespace Layout

/-- Digits with the point after the one of power zero, zeros filled in on either side. -/
def placed (l : Layout) (negative : Bool) (ds : List Digit) (exponent : Int) : Numeral :=
  if 0 ≤ exponent then
    { negative, whole := ds ++ List.replicate exponent.toNat .zero, fraction := if l.pointZero then [.zero] else [] }
  else
    let places := (-exponent).toNat
    if places < ds.length then
      { negative, whole := ds.take (ds.length - places), fraction := ds.drop (ds.length - places) }
    else { negative, whole := [.zero], fraction := List.replicate (places - ds.length) .zero ++ ds }

def powered (negative : Bool) (ds : List Digit) (first : Int) : Numeral :=
  { negative, whole := ds.take 1, fraction := ds.drop 1,
    power := some ⟨first < 0, digits first.natAbs⟩ }

def numeral (l : Layout) (negative : Bool) (d : Decimal) : Numeral :=
  let ds := digits d.significand
  let first := d.exponent + ds.length - 1
  if l.inPlace first then l.placed negative ds d.exponent else powered negative ds first

/-- The numeral of a number with the fewest digits that read back; none if it is not finite. -/
def ofBinary? {f : Format} (l : Layout) : Binary f → Option Numeral
  | .finite s m p _ =>
    if m = 0 then some (l.numeral s ⟨0, 0⟩) else some (l.numeral s (Decimal.shortest l.tie f m p))
  | _ => none

end Layout

def nonFiniteWord {f : Format} (x : Binary f) : String :=
  match x with
  | .nan => "NaN"
  | x => if x.isNegative then "-inf" else "inf"

/-- Messages write numbers in place, a whole number without a point, and ties away from zero. -/
def plainLayout : Layout := ⟨fun _ => true, false, .away⟩

def plainText {f : Format} (x : Binary f) : String :=
  match plainLayout.ofBinary? x with
  | some n => String.ofList n.chars
  | none => nonFiniteWord x

def fixedText {f : Format} (places : Nat) (x : Binary f) : String :=
  match x with
  | .finite s m p _ =>
    let ds := digits (roundDiv .toEven (m * Nat.pow 2 p * Nat.pow 10 places) (Nat.pow 2 f.unit))
    let ds := List.replicate (places + 1 - ds.length) .zero ++ ds
    String.ofList ({ negative := s, whole := ds.take (ds.length - places),
                     fraction := ds.drop (ds.length - places) : Numeral }).chars
  | x => nonFiniteWord x

def alignRight (width : Nat) (text : String) : String :=
  String.ofList (List.replicate (width - text.length) ' ') ++ text

end ExpertRouting
