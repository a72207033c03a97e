/-
  ExpertRouting.Proofs.Synthetic.Generator — a step of the generator loses nothing.

  A step combines the state with a shifted copy of itself, three times. The bits that a shift
  pushes out are lost in the copy only. To combine twice with a copy shifted by `k` is to combine
  once with one shifted by `k + k`, since the other two copies cancel (`Shifts.combine_twice`).
  So with every doubling less is left of the copy, in the end the word comes back as it was, and
  what leads there cannot have taken two words to one (`Shifts.combine_injective`). That holds of
  shifts to either side and of words of any width.

  So two states that step to one are one (`next_injective`), and only zero steps to zero
  (`next_eq_zero_iff`); neither changes with the number of steps (`iterate_next_inj`,
  `iterate_next_ne_zero`). No seed makes a router with the state zero (`ofSeed_state_ne_zero`).
-/

import Mathlib.Logic.Function.Iterate
import ExpertRouting.Synthetic

namespace ExpertRouting

open Function

/-! ## Words combined with shifted copies -/

/-- What shifts to the left and shifts to the right have in common. -/
structure Shifts {w : Nat} (shift : BitVec w → Nat → BitVec w) : Prop where
  xor : ∀ x y k, shift (x ^^^ y) k = shift x k ^^^ shift y k
  add : ∀ x j k, shift x (j + k) = shift (shift x j) k
  out : ∀ x k, w ≤ k → shift x k = 0#w

namespace Shifts

variable {w : Nat} {shift : BitVec w → Nat → BitVec w}

theorem left (w : Nat) : Shifts fun (x : BitVec w) (k : Nat) => x <<< k where
  xor := BitVec.shiftLeft_xor_distrib
  add := BitVec.shiftLeft_add
  out _ _ hk := BitVec.shiftLeft_eq_zero hk

theorem right (w : Nat) : Shifts fun (x : BitVec w) (k : Nat) => x >>> k where
  xor := BitVec.ushiftRight_xor_distrib
  add := BitVec.shiftRight_add
  out _ _ hk := BitVec.ushiftRight_eq_zero hk

theorem combine_twice (h : Shifts shift) (x : BitVec w) (k : Nat) :
    (x ^^^ shift x k) ^^^ shift (x ^^^ shift x k) k = x ^^^ shift x (k + k) :=
  calc (x ^^^ shift x k) ^^^ shift (x ^^^ shift x k) k
      = (x ^^^ shift x k) ^^^ (shift x k ^^^ shift x (k + k)) := by rw [h.xor, ← h.add]
    _ = x ^^^ shift x (k + k) := by
        rw [BitVec.xor_assoc, ← BitVec.xor_assoc (shift x k), BitVec.xor_self, BitVec.zero_xor]

theorem combine_injective (h : Shifts shift) (k : Nat) (hk : 0 < k) : Injective fun x => x ^^^ shift x k := by
  -- the shift doubles until nothing is left of the copy
  by_cases hout : w ≤ k
  · intro x y hxy
    simpa only [h.out _ k hout, BitVec.xor_zero] using hxy
  · have htwice : Injective ((fun x => x ^^^ shift x k) ∘ fun x => x ^^^ shift x k) := by
      simpa only [comp_def, h.combine_twice] using h.combine_injective (k + k) (by omega)
    exact htwice.of_comp
termination_by w - k

end Shifts

namespace Router

/-- What a function does to the bits of a state decides whether it takes two states to one. -/
theorem injective_of_toBitVec {f : UInt64 → UInt64} {g : BitVec 64 → BitVec 64} (hg : Injective g)
    (hfg : ∀ s, (f s).toBitVec = g s.toBitVec) : Injective f := by
  intro s t hst
  have hwords : g s.toBitVec = g t.toBitVec := by rw [← hfg, ← hfg, hst]
  exact UInt64.toBitVec_inj.mp (hg hwords)

theorem xor_shiftLeft_injective (k : UInt64) (hk : 0 < k.toNat % 64) :
    Injective fun s : UInt64 => s ^^^ (s <<< k) := by
  refine injective_of_toBitVec ((Shifts.left 64).combine_injective (k.toNat % 64) hk) fun s => ?_
  rw [UInt64.toBitVec_xor, UInt64.toBitVec_shiftLeft, BitVec.shiftLeft_eq', BitVec.toNat_umod]
  rfl

theorem xor_shiftRight_injective (k : UInt64) (hk : 0 < k.toNat % 64) :
    Injective fun s : UInt64 => s ^^^ (s >>> k) := by
  refine injective_of_toBitVec ((Shifts.right 64).combine_injective (k.toNat % 64) hk) fun s => ?_
  rw [UInt64.toBitVec_xor, UInt64.toBitVec_shiftRight, BitVec.ushiftRight_eq', BitVec.toNat_umod]
  rfl

/-! ## Steps -/

theorem next_injective : Injective next := by
  have hfirst := xor_shiftLeft_injective 13 (by decide)
  have hsecond := xor_shiftRight_injective 7 (by decide)
  have hthird := xor_shiftLeft_injective 17 (by decide)
  exact hthird.comp (hsecond.comp hfirst)

@[simp] theorem next_zero : next 0 = 0 := by decide

theorem next_eq_zero_iff {s : UInt64} : next s = 0 ↔ s = 0 := next_injective.eq_iff' next_zero

theorem iterate_next_inj (n : Nat) {s t : UInt64} : next^[n] s = next^[n] t ↔ s = t :=
  (next_injective.iterate n).eq_iff

@[simp] theorem iterate_next_zero (n : Nat) : next^[n] 0 = 0 := iterate_fixed next_zero n

theorem iterate_next_ne_zero {s : UInt64} (hs : s ≠ 0) (n : Nat) : next^[n] s ≠ 0 := by
  induction n with
  | zero => exact hs
  | succ n ih =>
    rw [iterate_succ_apply']
    exact fun hzero => ih (next_eq_zero_iff.mp hzero)

/-- A seed of zero is no exception: its lowest bit is set too. -/
theorem ofSeed_state_ne_zero {seed : UInt64} {shape : Shape} {r : Router} (h : ofSeed? seed shape = some r) :
    r.state ≠ 0 := by
  unfold ofSeed? at h
  split at h
  · cases h
    intro hzero
    have hodd : (seed ||| 1).toNat.testBit 0 = true := by simp [UInt64.toNat_or]
    rw [show seed ||| 1 = 0 from hzero] at hodd
    cases hodd
  · cases h

end Router

end ExpertRouting
