/-
  ExpertRouting.Binary.Arithmetic — the operations, each the exact result rounded once.

  A finite number is a signed count of smallest steps, so sums, products and quotients are
  fractions of naturals, and `nearest` rounds them. A sum that is exactly zero is `+0`,
  except that `-0 + -0` is `-0`; infinities and not-a-number follow the usual rules.
-/

import ExpertRouting.Binary.Rounding

namespace ExpertRouting.Binary

variable {f : Format}

def add : Binary f → Binary f → Binary f
  | .nan, _ => .nan
  | _, .nan => .nan
  | .infinite s, .infinite t => if s = t then .infinite s else .nan
  | .infinite s, .finite .. => .infinite s
  | .finite .., .infinite t => .infinite t
  | x@(.finite s _ _ _), y@(.finite t _ _ _) =>
    let total := x.scaled + y.scaled
    if total = 0 then zero (s && t) else nearest f (total < 0) total.natAbs (Nat.pow 2 f.unit)

def sub (x y : Binary f) : Binary f := add x (-y)

def mul : Binary f → Binary f → Binary f
  | .nan, _ => .nan
  | _, .nan => .nan
  | .infinite s, .infinite t => .infinite (s != t)
  | .infinite s, .finite t m _ _ => if m = 0 then .nan else .infinite (s != t)
  | .finite s m _ _, .infinite t => if m = 0 then .nan else .infinite (s != t)
  | .finite s m p _, .finite t n q _ =>
    nearest f (s != t) (m * Nat.pow 2 p * (n * Nat.pow 2 q)) (Nat.pow 2 (2 * f.unit))

def div : Binary f → Binary f → Binary f
  | .nan, _ => .nan
  | _, .nan => .nan
  | .infinite _, .infinite _ => .nan
  | .infinite s, .finite t _ _ _ => .infinite (s != t)
  | .finite s _ _ _, .infinite t => zero (s != t)
  | .finite s m p _, .finite t n q _ =>
    if n = 0 then (if m = 0 then .nan else .infinite (s != t))
    else nearest f (s != t) (m * Nat.pow 2 p) (n * Nat.pow 2 q)

instance : Add (Binary f) := ⟨add⟩
instance : Sub (Binary f) := ⟨sub⟩
instance : Mul (Binary f) := ⟨mul⟩
instance : Div (Binary f) := ⟨div⟩

/-- The nearest integer, a half going away from zero; the sign stays on a zero. -/
def roundToInteger : Binary f → Binary f
  | .finite s m p _ => nearest f s (roundDiv .away (m * Nat.pow 2 p) (Nat.pow 2 f.unit)) 1
  | x => x

/-- The integer part, kept within `low` and `high`; not-a-number counts as zero. -/
def truncate (low high : Int) : Binary f → Int
  | .nan => 0
  | .infinite s => if s then low else high
  | .finite s m p _ =>
    let size : Int := (m * Nat.pow 2 p / Nat.pow 2 f.unit : Nat)
    max low (min high (if s then -size else size))

end ExpertRouting.Binary
