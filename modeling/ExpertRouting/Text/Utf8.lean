/-
  ExpertRouting.Text.Utf8 — bytes read as text.

  A stream of bytes is a list of symbols: characters, and runs of bytes that spell none.
  Reading never fails. `Begun` waits for the continuation bytes of one character; a byte
  that cannot continue it closes the run as stray bytes and starts afresh. A stray run
  never holds an ASCII byte, so quotes, brackets and line ends are found in spoilt text
  as well, and a reader of a file can say later whether the spoilt part matters.

  `encode` is the way back for characters.
-/

namespace ExpertRouting

/-- One piece of a byte stream read as text. -/
inductive Symbol where
  | char (c : Char)
  /-- Bytes that begin a character and do not complete it, or cannot begin one. -/
  | stray (bytes : List UInt8)
  deriving DecidableEq, Repr

namespace Symbol

def size : Symbol → Nat
  | .char c => c.utf8Size
  | .stray bytes => bytes.length

def char? : Symbol → Option Char
  | .char c => some c
  | .stray _ => none

end Symbol

namespace Utf8

/-- A character of which some bytes have been read. -/
structure Begun where
  /-- The bytes read, newest first. -/
  seen : List UInt8
  /-- The code point so far. -/
  code : Nat
  /-- The bytes still to come, less one. -/
  more : Nat
  /-- The range of the next byte. -/
  low : Nat := 0x80
  high : Nat := 0xBF
  deriving Repr

abbrev Lead := Symbol ⊕ Begun

def lead (b : UInt8) : Lead :=
  let n := b.toNat
  if n < 0x80 then .inl (.char (Char.ofNat n))
  else if 0xC2 ≤ n ∧ n ≤ 0xDF then .inr ⟨[b], n % 0x20, 0, 0x80, 0xBF⟩
  else if n = 0xE0 then .inr ⟨[b], 0, 1, 0xA0, 0xBF⟩
  else if n = 0xED then .inr ⟨[b], 0xD, 1, 0x80, 0x9F⟩
  else if 0xE1 ≤ n ∧ n ≤ 0xEF then .inr ⟨[b], n % 0x10, 1, 0x80, 0xBF⟩
  else if n = 0xF0 then .inr ⟨[b], 0, 2, 0x90, 0xBF⟩
  else if n = 0xF4 then .inr ⟨[b], 4, 2, 0x80, 0x8F⟩
  else if 0xF1 ≤ n ∧ n ≤ 0xF3 then .inr ⟨[b], n % 8, 2, 0x80, 0xBF⟩
  else .inl (.stray [b])

/-- Reads a byte inside a character; none if it cannot stand there. -/
def Begun.next? (q : Begun) (b : UInt8) : Option Lead :=
  let n := b.toNat
  if q.low ≤ n ∧ n ≤ q.high then
    let code := q.code * 0x40 + n % 0x40
    some <| match q.more with
      | 0 => .inl (.char (Char.ofNat code))
      | more + 1 => .inr ⟨b :: q.seen, code, more, 0x80, 0xBF⟩
  else none

def Begun.stray (q : Begun) : Symbol := .stray q.seen.reverse

/-- The symbols of a byte stream, from between characters or inside one. -/
def read : Option Begun → List UInt8 → List Symbol
  | none, [] => []
  | some q, [] => [q.stray]
  | none, b :: bs =>
    match lead b with
    | .inl s => s :: read none bs
    | .inr q => read (some q) bs
  | some q, b :: bs =>
    match q.next? b with
    | some (.inl s) => s :: read none bs
    | some (.inr q) => read (some q) bs
    | none =>
      q.stray :: match lead b with
        | .inl s => s :: read none bs
        | .inr q => read (some q) bs

def decode (bytes : List UInt8) : List Symbol := read none bytes

def encode (cs : List Char) : List UInt8 := cs.flatMap String.utf8EncodeChar

def chars? (text : List Symbol) : Option (List Char) := text.mapM Symbol.char?

/-- Text for display: each stray run becomes one replacement character. -/
def display (text : List Symbol) : String :=
  String.ofList (text.map fun s => s.char?.getD '\uFFFD')

end Utf8

end ExpertRouting
