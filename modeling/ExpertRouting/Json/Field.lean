/-
  ExpertRouting.Json.Field — decoding what was read.

  A decoder takes a reading and gives a value or the first fault. An object is decoded
  member by member (`foldMembers`), each member's type checked when it is met; its fields
  gather in slots (`Slot`) that refuse a second value, and a field still missing at the
  closing bracket is a mismatch. An array may stand for a structure and is then decoded
  position by position (`item`, `endItems`).
-/

import ExpertRouting.Json.Reading

namespace ExpertRouting.Json

abbrev Decoder (α : Type) := Reading → Except Fault α

def refuse {α : Type} : Option Fault → Except Fault α → Except Fault α
  | some f, _ => .error f
  | none, r => r

/-- A value of another kind than the one wanted. What is no container is read to its end
    first, so a fault in it comes before the mismatch. -/
def otherKind {α : Type} : Decoder α
  | .array .. => .error .mismatch
  | .object .. => .error .mismatch
  | r => refuse (r.fault? 0) (.error .mismatch)

def anyNumber : Decoder Number
  | .number n => match value? n with
    | some v => .ok v
    | none => .error .malformed
  | r => otherKind r

def naturalBelow (bound : Nat) : Decoder Nat := fun r => do
  match ← anyNumber r with
  | .natural n => if n < bound then .ok n else .error .mismatch
  | _ => .error .mismatch

def word32 : Decoder UInt32 := fun r => (naturalBelow UInt32.size r).map UInt32.ofNat

def word64 : Decoder UInt64 := fun r => (naturalBelow UInt64.size r).map UInt64.ofNat

def real : Decoder Real64 := fun r => (anyNumber r).map Number.toReal

def text : Decoder String
  | .string (some s) => .ok s
  | r => otherKind r

def nullable {α : Type} (decode : Decoder α) : Decoder (Option α)
  | .null => .ok none
  | r => (decode r).map some

def atEnd {α : Type} (stop : Option Break) (a : α) : Except Fault α := refuse (wantedFault? stop) (.ok a)

def listOf {α : Type} (decode : Decoder α) : Decoder (List α)
  | .array items stop => do
    let values ← items.mapM decode
    atEnd stop values
  | r => otherKind r

/-! ## Structures as arrays -/

structure Items where
  items : List Reading
  stop : Option Break

def item {α : Type} (decode : Decoder α) (rest : Items) : Except Fault (α × Items) :=
  match rest.items with
  | [] => refuse (wantedFault? rest.stop) (.error .mismatch)
  | r :: more => (decode r).map fun a => (a, { rest with items := more })

/-- The next item, or a default if the array ends before it. -/
def itemOr {α : Type} (default : α) (decode : Decoder α) (rest : Items) : Except Fault (α × Items) :=
  match rest.items with
  | [] => atEnd rest.stop (default, rest)
  | r :: more => (decode r).map fun a => (a, { rest with items := more })

/-- The end of the array; items beyond the last field are the fault `surplus`. -/
def endItems {α : Type} (surplus : Fault) (rest : Items) (a : α) : Except Fault α :=
  match rest.items with
  | [] => atEnd rest.stop a
  | _ :: _ => .error surplus

/-! ## Structures as objects -/

abbrev Slot (α : Type) := Option α

/-- Decodes a member into its field; a field met twice is a mismatch. -/
def fill {α : Type} (slot : Slot α) (decode : Decoder α) (r : Reading) : Except Fault (Slot α) :=
  match slot with
  | some _ => .error .mismatch
  | none => (decode r).map some

def required {α : Type} : Slot α → Except Fault α
  | some a => .ok a
  | none => .error .mismatch

def skip {σ : Type} (s : σ) (r : Reading) : Except Fault σ := refuse r.skipFault? (.ok s)

def foldMembers {σ : Type} (step : σ → String → Reading → Except Fault σ) (s : σ) (stop : Option Break) :
    List (Key × Reading) → Except Fault σ
  | [] => atEnd stop s
  | (none, _) :: _ => .error .malformed
  | (some key, r) :: rest => do foldMembers step (← step s key r) stop rest

/-- Decodes a whole text: the value first, then whether anything follows. -/
def decodeText {α : Type} (decode : Decoder α) (text : List Symbol) : Except Fault α := do
  let d := read text
  let a ← decode d.value
  if d.trailing then .error .malformed else .ok a

end ExpertRouting.Json
