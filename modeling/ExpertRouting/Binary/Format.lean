/-
  ExpertRouting.Binary.Format — binary floating point numbers of any width.

  A format fixes three naturals: how many binary digits a significand has, how fine the
  smallest step is (`1 / 2 ^ unit`), and how often that step may be doubled. A finite
  number is `± significand * 2 ^ shift / 2 ^ unit`, so every finite number of a format is
  an integer multiple of its smallest step and no negative exponents are needed. The
  number carries a proof that its significand and shift are the canonical ones, hence
  two finite numbers are equal exactly when sign, significand and shift are.

  The four formats of the program: routing weights arrive as `binary16`, `bfloat16`,
  `binary32` or `binary64`, and everything written to a file is `binary64`.
-/

namespace ExpertRouting

structure Format where
  /-- Binary digits of a significand. -/
  precision : Nat
  /-- The smallest positive number is `1 / 2 ^ unit`. -/
  unit : Nat
  /-- The most often the smallest step can be doubled. -/
  maxShift : Nat
  deriving DecidableEq, Repr

def binary64 : Format := ⟨53, 1074, 2045⟩
def binary32 : Format := ⟨24, 149, 253⟩
def binary16 : Format := ⟨11, 24, 29⟩
def bfloat16 : Format := ⟨8, 133, 253⟩

/-- A significand and shift that spell a number of the format in the one agreed way:
    the significand fits, and it is full unless the step is the smallest. -/
structure Format.Canonical (f : Format) (significand shift : Nat) : Prop where
  fits : significand < Nat.pow 2 f.precision
  full : shift = 0 ∨ Nat.pow 2 (f.precision - 1) ≤ significand
  inRange : shift ≤ f.maxShift

instance (f : Format) (m p : Nat) : Decidable (f.Canonical m p) :=
  if h : m < Nat.pow 2 f.precision ∧ (p = 0 ∨ Nat.pow 2 (f.precision - 1) ≤ m) ∧ p ≤ f.maxShift then
    .isTrue ⟨h.1, h.2.1, h.2.2⟩
  else
    .isFalse fun c => h ⟨c.fits, c.full, c.inRange⟩

/-- A number of a binary format. Zero keeps its sign; there is one not-a-number. -/
inductive Binary (f : Format) where
  | nan
  | infinite (negative : Bool)
  | finite (negative : Bool) (significand shift : Nat) (canonical : f.Canonical significand shift)
  deriving DecidableEq

namespace Binary

variable {f : Format}

def isFinite : Binary f → Bool
  | .finite .. => true
  | _ => false

def isInfinite : Binary f → Bool
  | .infinite _ => true
  | _ => false

def isNegative : Binary f → Bool
  | .nan => false
  | .infinite s => s
  | .finite s _ _ _ => s

def steps : Binary f → Nat
  | .finite _ m p _ => m * Nat.pow 2 p
  | _ => 0

def scaled (x : Binary f) : Int :=
  if x.isNegative then -(x.steps : Int) else x.steps

def isZero : Binary f → Bool
  | .finite _ m _ _ => m == 0
  | _ => false

theorem canonical_zero (f : Format) : f.Canonical 0 0 :=
  ⟨Nat.two_pow_pos _, .inl rfl, Nat.zero_le _⟩

def zero (negative : Bool) : Binary f := .finite negative 0 0 (canonical_zero f)

instance : Inhabited (Binary f) := ⟨zero false⟩

def neg : Binary f → Binary f
  | .nan => .nan
  | .infinite s => .infinite (!s)
  | .finite s m p h => .finite (!s) m p h

instance : Neg (Binary f) := ⟨neg⟩

/-- The order of numbers, in which both zeros are equal and not-a-number is unordered. -/
def lt : Binary f → Binary f → Bool
  | .nan, _ => false
  | _, .nan => false
  | .infinite s, .infinite t => s && !t
  | .infinite s, .finite .. => s
  | .finite .., .infinite t => !t
  | x@(.finite ..), y@(.finite ..) => x.scaled < y.scaled

def isNaN : Binary f → Bool
  | .nan => true
  | _ => false

def le (x y : Binary f) : Bool := !x.isNaN && !y.isNaN && !y.lt x

/-- The rank of a number in the total order that puts `-0` before `0`: negative numbers
    below zero, each by its size. Not-a-number is above everything. -/
def rank : Binary f → Int
  | .nan => Nat.pow 2 (f.precision + f.maxShift + 1)
  | .infinite s => if s then -((Nat.pow 2 (f.precision + f.maxShift) : Nat) + 1 : Int) else (Nat.pow 2 (f.precision + f.maxShift) : Nat)
  | .finite s m p _ => if s then -((m * Nat.pow 2 p : Nat) + 1 : Int) else (m * Nat.pow 2 p : Nat)

end Binary

end ExpertRouting
