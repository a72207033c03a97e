/-
  ExpertRouting.Json.Token — the tokens of a JSON text.

  `Scanner` is where the reader stands: between tokens, in a word, in a number or in a
  string. It takes one symbol at a time, and `scan` strings the steps together, so a text
  always has a list of tokens; a text that stops being JSON ends in a broken one.

  Some values are read and some are only skipped, and the two are not equally strict. A
  string whose bytes are no text or whose escapes leave half a surrogate pair may be
  skipped but not read, and a text that ends inside a number counts as cut short only
  when that number is wanted. So a string token says whether it has a text, and a
  broken one carries a fault for either use.
-/

import ExpertRouting.Decimal.Numeral
import ExpertRouting.Text.Utf8

namespace ExpertRouting.Json

inductive Fault where
  /-- It ends too early. -/
  | truncated
  /-- It is not JSON, or not JSON that this reader takes. -/
  | malformed
  /-- It is JSON of another shape than the one asked for. -/
  | mismatch
  deriving DecidableEq, Repr

/-- The fault at one place, by the use that is made of the value there. -/
structure Break where
  /-- For a reader that wants the value. -/
  wanted : Fault
  /-- For a reader that passes over it. -/
  skipped : Fault
  /-- For a reader that wants a choice: a name, or an object whose one key is the name. -/
  choice : Fault
  deriving DecidableEq, Repr

def Break.all (f : Fault) : Break := ⟨f, f, f⟩

def Break.malformed : Break := .all .malformed

def Break.truncated : Break := .all .truncated

inductive Token where
  | beginArray
  | endArray
  | beginObject
  | endObject
  | comma
  | colon
  | null
  | bool (b : Bool)
  | number (n : Numeral)
  /-- A closed string; none if it can only be skipped. -/
  | string (text : Option String)
  /-- A string that never closes or holds what no string may hold. -/
  | brokenString (b : Break)
  /-- Any other text that is no token. -/
  | broken (b : Break)
  deriving DecidableEq, Repr

/-- The digits of a number read so far, each list newest first. -/
structure Spelling where
  negative : Bool
  whole : List Digit := []
  fraction : List Digit := []
  powerNegative : Bool := false
  power : List Digit := []
  deriving Repr

inductive Place where
  | sign
  | zero
  | whole
  | point
  | fraction
  | mark
  | markSign
  | power
  deriving DecidableEq, Repr

def Spelling.numeral (n : Spelling) (place : Place) : Numeral where
  negative := n.negative
  whole := n.whole.reverse
  fraction := n.fraction.reverse
  power := if place = .power then some ⟨n.powerNegative, n.power.reverse⟩ else none

inductive Spot where
  | plain
  /-- After a backslash. -/
  | escape
  /-- In a four-digit escape: the bytes read of it and, if they are digits, their value. -/
  | hex (count : Nat) (code : Option Nat)
  deriving Repr

structure Quote where
  spot : Spot := .plain
  /-- The characters, newest first. -/
  text : List Char := []
  /-- No stray byte so far. -/
  clean : Bool := true
  /-- No lone surrogate so far. -/
  paired : Bool := true
  /-- A leading surrogate that waits for its partner. -/
  lead : Option Nat := none
  deriving Repr

inductive Scanner where
  | between
  /-- In a word: the letters still to come and the token it makes. -/
  | word (letters : List Char) (token : Token)
  | number (place : Place) (n : Spelling)
  | quoted (q : Quote)

/-- What one symbol does: it completes some tokens and moves the reader, or ends the text
    in a broken token. -/
inductive Step where
  | on (tokens : List Token) (next : Scanner)
  | halt (tokens : List Token)

def isSpace (c : Char) : Bool := c == ' ' || c == '\n' || c == '\t' || c == '\r'

def between : Symbol → Step
  | .stray _ => .halt [.broken .malformed]
  | .char c =>
    if isSpace c then .on [] .between
    else match c with
      | '[' => .on [.beginArray] .between
      | ']' => .on [.endArray] .between
      | '{' => .on [.beginObject] .between
      | '}' => .on [.endObject] .between
      | ',' => .on [.comma] .between
      | ':' => .on [.colon] .between
      | '"' => .on [] (.quoted {})
      | '-' => .on [] (.number .sign { negative := true })
      | 'n' => .on [] (.word ['u', 'l', 'l'] .null)
      | 't' => .on [] (.word ['r', 'u', 'e'] (.bool true))
      | 'f' => .on [] (.word ['a', 'l', 's', 'e'] (.bool false))
      | c =>
        match Digit.ofChar? c with
        | some d => .on [] (.number (if d = .zero then .zero else .whole) { negative := false, whole := [d] })
        | none => .halt [.broken .malformed]

/-- A symbol in a word whose next letter is `letter`. -/
def inWord (letter : Char) (letters : List Char) (token : Token) (s : Symbol) : Step :=
  if s = .char letter then
    (if letters.isEmpty then .on [token] .between else .on [] (.word letters token))
  else .halt [.broken .malformed]

def endNumber (place : Place) (n : Spelling) (s : Symbol) : Step :=
  let token := Token.number (n.numeral place)
  match between s with
  | .on tokens next => .on (token :: tokens) next
  | .halt tokens => .halt (token :: tokens)

def inNumber (place : Place) (n : Spelling) (s : Symbol) : Step :=
  let digit := s.char?.bind Digit.ofChar?
  let isMark := s = .char 'e' ∨ s = .char 'E'
  match place, digit with
  | .sign, some d => .on [] (.number (if d = .zero then .zero else .whole) { n with whole := [d] })
  | .zero, some _ => .halt [.broken .malformed]
  | .whole, some d => .on [] (.number .whole { n with whole := d :: n.whole })
  | .point, some d => .on [] (.number .fraction { n with fraction := [d] })
  | .fraction, some d => .on [] (.number .fraction { n with fraction := d :: n.fraction })
  | .mark, some d | .markSign, some d => .on [] (.number .power { n with power := [d] })
  | .power, some d => .on [] (.number .power { n with power := d :: n.power })
  | .zero, none | .whole, none =>
    if s = .char '.' then .on [] (.number .point n)
    else if isMark then .on [] (.number .mark n)
    else endNumber place n s
  | .fraction, none => if isMark then .on [] (.number .mark n) else endNumber place n s
  | .mark, none =>
    if s = .char '+' then .on [] (.number .markSign n)
    else if s = .char '-' then .on [] (.number .markSign { n with powerNegative := true })
    else .halt [.broken .malformed]
  | .power, none => endNumber place n s
  | .sign, none | .point, none | .markSign, none => .halt [.broken .malformed]

def escaped? : Char → Option Char
  | '"' => some '"'
  | '\\' => some '\\'
  | '/' => some '/'
  | 'b' => some '\x08'
  | 'f' => some '\x0c'
  | 'n' => some '\n'
  | 'r' => some '\r'
  | 't' => some '\t'
  | _ => none

def hexValue? (c : Char) : Option Nat :=
  if '0' ≤ c ∧ c ≤ '9' then some (c.toNat - '0'.toNat)
  else if 'a' ≤ c ∧ c ≤ 'f' then some (c.toNat - 'a'.toNat + 10)
  else if 'A' ≤ c ∧ c ≤ 'F' then some (c.toNat - 'A'.toNat + 10)
  else none

/-- A leading surrogate that is not followed by its partner stays alone. -/
def Quote.alone (q : Quote) : Quote :=
  if q.lead.isSome then { q with lead := none, paired := false } else q

/-- A sixteen-bit unit written as an escape. -/
def Quote.unit (q : Quote) (code : Nat) : Quote :=
  let q := { q with spot := .plain }
  match q.lead with
  | some lead =>
    if 0xDC00 ≤ code ∧ code ≤ 0xDFFF then
      { q with lead := none, text := Char.ofNat (0x10000 + (lead - 0xD800) * 0x400 + (code - 0xDC00)) :: q.text }
    else q.alone
  | none =>
    if 0xD800 ≤ code ∧ code ≤ 0xDBFF then { q with lead := some code }
    else if 0xDC00 ≤ code ∧ code ≤ 0xDFFF then { q with paired := false }
    else { q with text := Char.ofNat code :: q.text }

def inQuote (q : Quote) (s : Symbol) : Step :=
  match q.spot with
  | .plain =>
    if s = .char '\\' then .on [] (.quoted { q with spot := .escape })
    else
      let q := q.alone
      match s with
      | .stray _ => .on [] (.quoted { q with clean := false })
      | .char c =>
        if c = '"' then
          .on [.string (if q.clean && q.paired then some (String.ofList q.text.reverse) else none)] .between
        else if c.toNat < 0x20 then .halt [.brokenString .malformed]
        else .on [] (.quoted { q with text := c :: q.text })
  | .escape =>
    if s = .char 'u' then .on [] (.quoted { q with spot := .hex 0 (some 0) })
    else
      match s.char?.bind escaped? with
      | some c => .on [] (.quoted { q.alone with spot := .plain, text := c :: q.text })
      | none => .halt [.brokenString .malformed]
  | .hex count code =>
    let code := code.bind fun v => (s.char?.bind hexValue?).map (16 * v + ·)
    let count := count + s.size
    if count < 4 then .on [] (.quoted { q with spot := .hex count code })
    else
      match code with
      | some v => .on [] (.quoted (q.unit v))
      | none => .halt [.brokenString .malformed]

def step : Scanner → Symbol → Step
  | .between, s => between s
  | .word [] token, _ => .halt [token]
  | .word (letter :: letters) token, s => inWord letter letters token s
  | .number place n, s => inNumber place n s
  | .quoted q, s => inQuote q s

def finish : Scanner → List Token
  | .between => []
  | .word _ _ => [.broken ⟨.truncated, .truncated, .malformed⟩]
  | .number place n =>
    match place with
    | .zero | .whole | .fraction | .power => [.number (n.numeral place)]
    | .sign | .point | .mark | .markSign => [.broken ⟨.truncated, .malformed, .malformed⟩]
  | .quoted q =>
    let wanted := if q.paired then Fault.truncated else .malformed
    [.brokenString ⟨wanted, .truncated, wanted⟩]

def scan : Scanner → List Symbol → List Token
  | q, [] => finish q
  | q, s :: rest =>
    match step q s with
    | .on tokens next => tokens ++ scan next rest
    | .halt tokens => tokens

def tokens (text : List Symbol) : List Token := scan .between text

end ExpertRouting.Json
