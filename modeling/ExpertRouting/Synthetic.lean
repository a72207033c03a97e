/-
  ExpertRouting.Synthetic — a stand-in for a router, for driving the sink without a model.

  A router is a shape and a 64-bit state that three shifted exclusive-ors step. For a row
  it draws experts until it has `topK` different ones, each draw the smaller of two
  numbers below the number of experts (so low experts are preferred), then a weight for
  each, divides the weights by their sum and puts them in falling order.

  Drawing has no bound of its own: where too few different experts can turn up, it never
  ends. There are `2 ^ 64` states, so a search that fails that often has come back to a
  state it had before and never ends; `none` says so.
-/

import ExpertRouting.Capture.Batch

namespace ExpertRouting

structure Router where
  state : UInt64
  shape : Shape
  deriving DecidableEq, Repr

structure Row where
  experts : List UInt32
  weights : List Real32
  deriving DecidableEq

namespace Router

/-- A router for a sound shape. The lowest bit of its state is set, so the state is not zero. -/
def ofSeed? (seed : UInt64) (shape : Shape) : Option Router :=
  if shape.sound then some ⟨seed ||| 1, shape⟩ else none

def shapeMessage (shape : Shape) : String :=
  s!"top_k {decimal shape.topK.toNat} is not within 1..={decimal shape.numExperts.toNat}"

def next (s : UInt64) : UInt64 :=
  let s := s ^^^ (s <<< 13)
  let s := s ^^^ (s >>> 7)
  s ^^^ (s <<< 17)

/-- Draws an expert: the smaller of two numbers below `n`, cut to 32 bits. -/
def drawExpert (n s : UInt64) : UInt32 × UInt64 :=
  let a := next s
  let b := next a
  ((min (a % n) (b % n)).toUInt32, b)

/-- Draws until an expert turns up that is not taken, `draws` times at most. -/
def drawFresh (n : UInt64) (taken : List UInt32) : (draws : Nat) → UInt64 → Option (UInt32 × UInt64)
  | 0, _ => none
  | draws + 1, s =>
    let (e, s) := drawExpert n s
    if taken.contains e then drawFresh n taken draws s else some (e, s)

def period : Nat := UInt64.size

/-- Draws `k` more different experts; those taken are newest first. -/
def drawExperts (n : UInt64) : (k : Nat) → List UInt32 → UInt64 → Option (List UInt32 × UInt64)
  | 0, taken, s => some (taken.reverse, s)
  | k + 1, taken, s =>
    match drawFresh n taken period s with
    | none => none
    | some (e, s) => drawExperts n k (e :: taken) s

def drawWeight (s : UInt64) : Real32 × UInt64 :=
  let s := next s
  (Binary.ofNat binary32 (s >>> 40).toNat / Binary.ofNat binary32 16777216 +
    Binary.ofDecimal binary32 false 1 (-2), s)

def drawWeights : (k : Nat) → UInt64 → List Real32 × UInt64
  | 0, s => ([], s)
  | k + 1, s =>
    let (w, s) := drawWeight s
    let (ws, s) := drawWeights k s
    (w :: ws, s)

/-- Weights divided by their sum, which is taken from left to right, in falling order. -/
def normalize (ws : List Real32) : List Real32 :=
  let sum := ws.foldl (· + ·) (Binary.zero false)
  (ws.map (· / sum)).mergeSort fun a b => b.rank ≤ a.rank

/-- The row of one token; none if drawing never ends. -/
def routeToken (r : Router) : Option (Row × Router) :=
  match drawExperts r.shape.numExperts r.shape.topK.toNat [] r.state with
  | none => none
  | some (experts, s) =>
    let (weights, s) := drawWeights r.shape.topK.toNat s
    some (⟨experts, normalize weights⟩, { r with state := s })

def routeBatch (r : Router) : (tokens : Nat) → Option (List Row × Router)
  | 0 => some ([], r)
  | tokens + 1 =>
    match r.routeToken with
    | none => none
    | some (row, r) =>
      match r.routeBatch tokens with
      | none => none
      | some (rows, r) => some (row :: rows, r)

end Router

def Batch.ofRows (rows : List Row) : Batch := .ofWeights (rows.map (·.experts)) (rows.map (·.weights))

end ExpertRouting
