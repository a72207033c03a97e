/-
  ExpertRouting.Json.Reading — a JSON text as far as it can be read.

  `read` never fails: it turns the tokens of a text into a tree, and where the text stops
  being JSON the tree ends in a break. So whoever decodes the tree walks it from left to
  right and meets faults of shape and faults of grammar in the order of the text.

  The tree is built with a stack of open containers (`Frame`) and a note of what is due
  next (`Due`), one token at a time, so depth costs nothing here. A reader that wants a
  value checks it with `fault?`, which allows a bounded depth; one that passes over a
  value only asks `skipFault?`.
-/

import ExpertRouting.Json.Number

namespace ExpertRouting.Json

/-- The key of a member; none if it can only be skipped. -/
abbrev Key := Option String

inductive Reading where
  | null
  | bool (b : Bool)
  | number (n : Numeral)
  | string (text : Option String)
  /-- A container that ends in a break has no closing bracket. -/
  | array (items : List Reading) (stop : Option Break)
  | object (members : List (Key × Reading)) (stop : Option Break)
  | broken (b : Break)
  deriving Repr

/-- An open container, what is in it so far newest first. -/
inductive Frame where
  | array (before : List Reading)
  | object (before : List (Key × Reading))
  /-- An object in which a key waits for its value. -/
  | member (before : List (Key × Reading)) (key : Key)

inductive Due where
  | value
  | itemOrEnd
  | commaOrEnd
  | keyOrEnd
  | key
  | colon
  deriving DecidableEq

structure Document where
  value : Reading
  trailing : Bool
  deriving Repr

/-- Closes the open containers around a value that the text breaks off after. -/
def unwind (b : Break) : List Frame → Reading → Reading
  | [], r => r
  | .array before :: outer, r => unwind b outer (.array (r :: before).reverse (some b))
  | .object before :: outer, _ => unwind b outer (.object before.reverse (some b))
  | .member before key :: outer, r => unwind b outer (.object ((key, r) :: before).reverse (some b))

def breakAtValue (b : Break) (stack : List Frame) : Document := ⟨unwind b stack (.broken b), false⟩

/-- The text breaks off between the parts of the innermost container. -/
def breakAtPart (b : Break) : List Frame → Document
  | [] => ⟨.broken b, false⟩
  | .array before :: outer => ⟨unwind b outer (.array before.reverse (some b)), false⟩
  | .object before :: outer => ⟨unwind b outer (.object before.reverse (some b)), false⟩
  | .member before key :: outer => ⟨unwind b outer (.object ((key, .broken b) :: before).reverse (some b)), false⟩

inductive Turn where
  | next (stack : List Frame) (due : Due)
  /-- The outermost value is complete. -/
  | done (r : Reading)
  | stop (d : Document)

def put (r : Reading) : List Frame → Turn
  | [] => .done r
  | .array before :: outer => .next (.array (r :: before) :: outer) .commaOrEnd
  | .member before key :: outer => .next (.object ((key, r) :: before) :: outer) .commaOrEnd
  | .object before :: outer => .next (.object before :: outer) .commaOrEnd

def atValue (stack : List Frame) : Token → Turn
  | .null => put .null stack
  | .bool b => put (.bool b) stack
  | .number n => put (.number n) stack
  | .string s => put (.string s) stack
  | .beginArray => .next (.array [] :: stack) .itemOrEnd
  | .beginObject => .next (.object [] :: stack) .keyOrEnd
  | .brokenString b | .broken b => .stop (breakAtValue b stack)
  | .endArray | .endObject | .comma | .colon => .stop (breakAtValue .malformed stack)

def atComma : List Frame → Token → Turn
  | .array before :: outer, .comma => .next (.array before :: outer) .value
  | .array before :: outer, .endArray => put (.array before.reverse none) outer
  | .object before :: outer, .comma => .next (.object before :: outer) .key
  | .object before :: outer, .endObject => put (.object before.reverse none) outer
  | stack, _ => .stop (breakAtPart .malformed stack)

def atFirstKey : List Frame → Token → Turn
  | .object before :: outer, .string s => .next (.member before s :: outer) .colon
  | stack, .brokenString b => .stop (breakAtPart b stack)
  | stack, _ => .stop (breakAtPart .malformed stack)

def atKey : List Frame → Token → Turn
  | .object before :: outer, .string s => .next (.member before s :: outer) .colon
  | stack, .brokenString b => .stop (breakAtPart { b with choice := .malformed } stack)
  | stack, _ => .stop (breakAtPart .malformed stack)

def turn (stack : List Frame) (due : Due) (t : Token) : Turn :=
  match due with
  | .value => atValue stack t
  | .itemOrEnd => if t = .endArray then atComma stack t else atValue stack t
  | .commaOrEnd => atComma stack t
  | .keyOrEnd => if t = .endObject then atComma stack t else atFirstKey stack t
  | .key => atKey stack t
  | .colon => if t = .colon then .next stack .value else .stop (breakAtValue .malformed stack)

def readFrom (stack : List Frame) (due : Due) : List Token → Document
  | [] =>
    match due with
    | .value | .colon => breakAtValue .truncated stack
    | .itemOrEnd | .commaOrEnd | .keyOrEnd => breakAtPart .truncated stack
    | .key => breakAtPart { Break.truncated with choice := .malformed } stack
  | t :: rest =>
    match turn stack due t with
    | .next stack due => readFrom stack due rest
    | .done r => ⟨r, !rest.isEmpty⟩
    | .stop d => d

def read (text : List Symbol) : Document := readFrom [] .value (tokens text)

/-! ## Faults of a value -/

def maxDepth : Nat := 127

def wantedFault? (stop : Option Break) : Option Fault := stop.map (·.wanted)

mutual

/-- The first fault of a value that is wanted, `depth` containers allowed. -/
def Reading.fault? (depth : Nat) : Reading → Option Fault
  | .null => none
  | .bool _ => none
  | .number n => if (value? n).isSome then none else some .malformed
  | .string s => if s.isSome then none else some .malformed
  | .array items stop =>
    if depth = 0 then some .malformed else (itemsFault? (depth - 1) items).or (wantedFault? stop)
  | .object members stop =>
    if depth = 0 then some .malformed else (membersFault? (depth - 1) members).or (wantedFault? stop)
  | .broken b => some b.wanted

def itemsFault? (depth : Nat) : List Reading → Option Fault
  | [] => none
  | r :: rest => (r.fault? depth).or (itemsFault? depth rest)

def membersFault? (depth : Nat) : List (Key × Reading) → Option Fault
  | [] => none
  | (key, r) :: rest =>
    if key.isSome then (r.fault? depth).or (membersFault? depth rest) else some .malformed

end

mutual

/-- The first fault of a value that is only passed over. -/
def Reading.skipFault? : Reading → Option Fault
  | .null => none
  | .bool _ => none
  | .number _ => none
  | .string _ => none
  | .array items stop => (skipItems? items).or (stop.map (·.skipped))
  | .object members stop => (skipMembers? members).or (stop.map (·.skipped))
  | .broken b => some b.skipped

def skipItems? : List Reading → Option Fault
  | [] => none
  | r :: rest => r.skipFault?.or (skipItems? rest)

def skipMembers? : List (Key × Reading) → Option Fault
  | [] => none
  | (_, r) :: rest => r.skipFault?.or (skipMembers? rest)

end

end ExpertRouting.Json
