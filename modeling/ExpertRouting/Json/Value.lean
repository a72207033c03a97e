/-
  ExpertRouting.Json.Value — JSON values and how they are written.

  `compact` writes no white space; `pretty` puts every item and member on a line of its
  own, two blanks deeper than its container. A string escapes the quote, the backslash
  and the control characters, the common ones by a letter. A real is written with the
  fewest digits that read back, in place from 0.00001 up to below 10^16, and always with a
  point there; a real that is not finite is written as null.
-/

import ExpertRouting.Decimal.Layout

namespace ExpertRouting

inductive Json where
  | null
  | bool (b : Bool)
  | number (n : Numeral)
  | string (text : String)
  | array (items : List Json)
  | object (members : List (String × Json))
  deriving Repr

namespace Json

/-- Reals in a file: in place from `10 ^ -5` to below `10 ^ 16`, with a point, ties to even. -/
def layout : Layout := ⟨fun power => -5 ≤ power && power < 16, true, .toEven⟩

def ofNat (n : Nat) : Json := .number (Numeral.ofNat n)

def ofReal (x : Real64) : Json :=
  match layout.ofBinary? x with
  | some n => .number n
  | none => .null

def hexDigit (n : Nat) : Char := if n < 10 then Char.ofNat ('0'.toNat + n) else Char.ofNat ('a'.toNat + (n - 10))

def escapeChar (c : Char) : List Char :=
  if c = '"' then ['\\', '"']
  else if c = '\\' then ['\\', '\\']
  else if c = '\x08' then ['\\', 'b']
  else if c = '\t' then ['\\', 't']
  else if c = '\n' then ['\\', 'n']
  else if c = '\x0c' then ['\\', 'f']
  else if c = '\r' then ['\\', 'r']
  else if c.toNat < 0x20 then ['\\', 'u', '0', '0', hexDigit (c.toNat / 16), hexDigit (c.toNat % 16)]
  else [c]

def quote (text : String) : List Char := '"' :: (text.toList.flatMap escapeChar ++ ['"'])

def word (b : Bool) : List Char := if b then ['t', 'r', 'u', 'e'] else ['f', 'a', 'l', 's', 'e']

mutual

def compact : Json → List Char
  | .null => ['n', 'u', 'l', 'l']
  | .bool b => word b
  | .number n => n.chars
  | .string s => quote s
  | .array items => '[' :: compactItems items
  | .object members => '{' :: compactMembers members

def compactItems : List Json → List Char
  | [] => [']']
  | v :: rest => v.compact ++ compactMoreItems rest

def compactMoreItems : List Json → List Char
  | [] => [']']
  | v :: rest => ',' :: (v.compact ++ compactMoreItems rest)

def compactMembers : List (String × Json) → List Char
  | [] => ['}']
  | (key, v) :: rest => quote key ++ ':' :: (v.compact ++ compactMoreMembers rest)

def compactMoreMembers : List (String × Json) → List Char
  | [] => ['}']
  | (key, v) :: rest => ',' :: (quote key ++ ':' :: (v.compact ++ compactMoreMembers rest))

end

def newLine (depth : Nat) : List Char := '\n' :: List.replicate (2 * depth) ' '

mutual

/-- The text of a value inside `depth` containers, a line for each part. -/
def prettyAt (depth : Nat) : Json → List Char
  | .null => ['n', 'u', 'l', 'l']
  | .bool b => word b
  | .number n => n.chars
  | .string s => quote s
  | .array items => '[' :: prettyItems depth items
  | .object members => '{' :: prettyMembers depth members

def prettyItems (depth : Nat) : List Json → List Char
  | [] => [']']
  | v :: rest => newLine (depth + 1) ++ (v.prettyAt (depth + 1) ++ prettyMoreItems depth rest)

def prettyMoreItems (depth : Nat) : List Json → List Char
  | [] => newLine depth ++ [']']
  | v :: rest => ',' :: (newLine (depth + 1) ++ (v.prettyAt (depth + 1) ++ prettyMoreItems depth rest))

def prettyMembers (depth : Nat) : List (String × Json) → List Char
  | [] => ['}']
  | (key, v) :: rest =>
    newLine (depth + 1) ++ (quote key ++ ':' :: ' ' :: (v.prettyAt (depth + 1) ++ prettyMoreMembers depth rest))

def prettyMoreMembers (depth : Nat) : List (String × Json) → List Char
  | [] => newLine depth ++ ['}']
  | (key, v) :: rest =>
    ',' :: (newLine (depth + 1) ++
      (quote key ++ ':' :: ' ' :: (v.prettyAt (depth + 1) ++ prettyMoreMembers depth rest)))

end

def pretty (v : Json) : List Char := v.prettyAt 0

end Json

end ExpertRouting
