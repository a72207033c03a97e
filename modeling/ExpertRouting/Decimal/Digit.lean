/-
  ExpertRouting.Decimal.Digit — decimal digits and the numbers they spell.

  `digits n` is the one spelling of a natural without leading zeros (zero is one digit),
  and `value` reads any digit string. `decimal n` is that spelling as text; the names of
  minted requests and every integer of a file are made of it.
-/

namespace ExpertRouting

abbrev Digit := Fin 10

namespace Digit

def zero : Digit := ⟨0, by decide⟩

def char (d : Digit) : Char := Char.ofNat ('0'.toNat + d.val)

/-- The digit a character stands for; only the ten ASCII digits are digits. -/
def ofChar? (c : Char) : Option Digit :=
  if h : '0'.toNat ≤ c.toNat ∧ c.toNat - '0'.toNat < 10 then some ⟨c.toNat - '0'.toNat, h.2⟩ else none

def value (ds : List Digit) : Nat := ds.foldl (fun n d => 10 * n + d.val) 0

/-- The digits of `n` in front of `tail`; `fuel` is more than the number of digits. -/
def prepend : (fuel n : Nat) → List Digit → List Digit
  | 0, _, tail => tail
  | fuel + 1, n, tail =>
    let tail := Fin.ofNat 10 n :: tail
    if n < 10 then tail else prepend fuel (n / 10) tail

end Digit

def digits (n : Nat) : List Digit := Digit.prepend (n + 1) n []

def decimalChars (n : Nat) : List Char := (digits n).map Digit.char

def decimal (n : Nat) : String := String.ofList (decimalChars n)

/-- The natural that a text spells with digits alone, after at most one plus sign. -/
def natural? (text : List Char) : Option Nat :=
  let body := match text with
    | '+' :: rest => rest
    | rest => rest
  if body.isEmpty then none else (body.mapM Digit.ofChar?).map Digit.value

def decimalInt (n : Int) : String := if n < 0 then "-" ++ decimal n.natAbs else decimal n.natAbs

def decimalList (ns : List Nat) : String := "[" ++ ", ".intercalate (ns.map decimal) ++ "]"

end ExpertRouting
