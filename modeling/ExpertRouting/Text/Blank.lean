/-
  ExpertRouting.Text.Blank — the white space of Unicode, and text without it at the ends.

  `isBlank` is the property White_Space: the ASCII blanks and controls, the separators,
  and the spaces of fixed width. Lines of a trace and settings are read without such
  characters at either end.
-/

namespace ExpertRouting.Text

/-- The code points of white space, as ranges with both ends in. -/
def blankRanges : List (Nat × Nat) :=
  [(0x09, 0x0D), (0x20, 0x20), (0x85, 0x85), (0xA0, 0xA0), (0x1680, 0x1680), (0x2000, 0x200A),
   (0x2028, 0x2029), (0x202F, 0x202F), (0x205F, 0x205F), (0x3000, 0x3000)]

def isBlank (c : Char) : Bool := blankRanges.any fun r => r.1 ≤ c.toNat && c.toNat ≤ r.2

def trim (cs : List Char) : List Char := ((cs.dropWhile isBlank).reverse.dropWhile isBlank).reverse

end ExpertRouting.Text
