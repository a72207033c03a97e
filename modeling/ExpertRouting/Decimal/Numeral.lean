/-
  ExpertRouting.Decimal.Numeral — a number as it is spelled.

  A numeral keeps what a reader may later ask about: the sign, the digits before and after
  the point, and the power of ten. No value is taken here, so a numeral too large for any
  machine number is still a numeral.
-/

import ExpertRouting.Decimal.Digit

namespace ExpertRouting

structure PowerOfTen where
  negative : Bool
  digits : List Digit
  deriving DecidableEq, Repr

structure Numeral where
  negative : Bool
  /-- The digits before the point. -/
  whole : List Digit
  /-- The digits after the point; with none there is no point. -/
  fraction : List Digit := []
  power : Option PowerOfTen := none
  deriving DecidableEq, Repr

namespace Numeral

def ofNat (n : Nat) : Numeral := { negative := false, whole := digits n }

/-- The power of ten with its mark; the sign is always written. -/
def powerChars : Option PowerOfTen → List Char
  | none => []
  | some p => 'e' :: (if p.negative then '-' else '+') :: p.digits.map Digit.char

def fractionChars : List Digit → List Char
  | [] => []
  | ds => '.' :: ds.map Digit.char

def chars (n : Numeral) : List Char :=
  (if n.negative then ['-'] else []) ++ n.whole.map Digit.char ++ fractionChars n.fraction ++ powerChars n.power

end Numeral

end ExpertRouting
