/-
  ExpertRouting.Proofs.Synthetic.Cycle — the generator runs through every state but zero.

  A step respects the exclusive or of two states (`next_xor`), so the bits of a number pick
  states to combine (`mix`): bit `i` takes the state `i` steps on. Doubling the number is one
  step more, and 65 bits, those of `modulus`, combine to zero from every state
  (`mix_modulus`). So any number of steps is a combination of 64 states, found by squaring
  (`mix_power`), and two combinations one after the other are again one (`mix_product`).

  In this way `2 ^ 64 - 1` steps are seen to lead back to every state (`iterate_cycle`). For
  each prime factor `q` of that number, the steps divided by `q` move every state but zero,
  since the difference they make can be undone (`stays_only_at_zero`). So no state but zero
  comes back earlier (`minimalPeriod_next`), and from each of them every other is reached, also
  by an even number of steps (`reaches`, `reaches_evenly`).
-/

import Mathlib
import ExpertRouting.Proofs.Synthetic.Generator

namespace ExpertRouting.Router

open Function

/-! ## A step is linear -/

theorem xor_swap (a b c d : UInt64) : (a ^^^ b) ^^^ (c ^^^ d) = (a ^^^ c) ^^^ (b ^^^ d) := by ac_rfl

theorem left_xor (a b k : UInt64) : (a ^^^ b) ^^^ ((a ^^^ b) <<< k) = (a ^^^ (a <<< k)) ^^^ (b ^^^ (b <<< k)) := by
  rw [UInt64.shiftLeft_xor, xor_swap]

theorem right_xor (a b k : UInt64) : (a ^^^ b) ^^^ ((a ^^^ b) >>> k) = (a ^^^ (a >>> k)) ^^^ (b ^^^ (b >>> k)) := by
  rw [UInt64.shiftRight_xor, xor_swap]

theorem next_xor (a b : UInt64) : next (a ^^^ b) = next a ^^^ next b := by
  have hfirst := left_xor a b 13
  have hsecond := right_xor (a ^^^ (a <<< 13)) (b ^^^ (b <<< 13)) 7
  rw [← hfirst] at hsecond
  have hthird := left_xor (a ^^^ (a <<< 13) ^^^ ((a ^^^ (a <<< 13)) >>> 7))
    (b ^^^ (b <<< 13) ^^^ ((b ^^^ (b <<< 13)) >>> 7)) 17
  rw [← hsecond] at hthird
  exact hthird

/-! ## Combinations of states -/

/-- The states from `s` on that the lowest bits of `p` pick, combined. -/
def mix : (bits : Nat) → (p : Nat) → UInt64 → UInt64
  | 0, _, _ => 0
  | bits + 1, p, s => (if p % 2 = 1 then s else 0) ^^^ mix bits (p / 2) (next s)

theorem pick_xor (p q : Nat) (s : UInt64) :
    (if (p ^^^ q) % 2 = 1 then s else 0) = (if p % 2 = 1 then s else 0) ^^^ (if q % 2 = 1 then s else 0) := by
  rw [Nat.xor_mod_two_eq, Nat.add_mod]
  rcases Nat.mod_two_eq_zero_or_one p with hp | hp <;> rcases Nat.mod_two_eq_zero_or_one q with hq | hq <;>
    simp [hp, hq]

theorem mix_zero (bits : Nat) (s : UInt64) : mix bits 0 s = 0 := by
  induction bits generalizing s with
  | zero => rfl
  | succ bits ih => simp [mix, ih]

theorem mix_xor (bits p q : Nat) (s : UInt64) : mix bits (p ^^^ q) s = mix bits p s ^^^ mix bits q s := by
  induction bits generalizing p q s with
  | zero => simp [mix]
  | succ bits ih =>
    simp only [mix, Nat.xor_div_two, ih, pick_xor]
    exact xor_swap _ _ _ _

theorem mix_state_xor (bits p : Nat) (s t : UInt64) : mix bits p (s ^^^ t) = mix bits p s ^^^ mix bits p t := by
  induction bits generalizing p s t with
  | zero => simp [mix]
  | succ bits ih =>
    have hpick : (if p % 2 = 1 then s ^^^ t else 0) =
        (if p % 2 = 1 then s else 0) ^^^ (if p % 2 = 1 then t else 0) := by
      split
      · rfl
      · simp
    simp only [mix, next_xor, ih, hpick]
    exact xor_swap _ _ _ _

theorem mix_state_zero (bits p : Nat) : mix bits p 0 = 0 := by
  have h := mix_state_xor bits p 0 0
  rwa [UInt64.xor_self, UInt64.xor_self] at h

theorem next_mix (bits p : Nat) (s : UInt64) : next (mix bits p s) = mix bits p (next s) := by
  induction bits generalizing p s with
  | zero => exact next_zero
  | succ bits ih =>
    simp only [mix, next_xor, ih]
    split
    · rfl
    · simp

theorem mix_double (bits p : Nat) (s : UInt64) : mix (bits + 1) (2 * p) s = next (mix bits p s) := by
  rw [next_mix]
  simp [mix]

theorem mix_of_lt {bits p : Nat} (h : p < 2 ^ bits) (s : UInt64) : mix (bits + 1) p s = mix bits p s := by
  induction bits generalizing p s with
  | zero =>
    obtain rfl : p = 0 := by omega
    exact mix_zero _ _
  | succ bits ih =>
    have hhalf : p / 2 < 2 ^ bits := by
      rw [Nat.pow_succ] at h
      omega
    rw [mix, ih hhalf, mix]

/-! ## The modulus -/

/-- The 65 bits whose states combine to zero. -/
def modulus : Nat := 18536486914334208513

/-- What is zero at every single bit is zero at every state. -/
theorem mix_eq_zero {bits p : Nat} (h : ∀ i < 64, mix bits p (UInt64.ofNat (2 ^ i)) = 0) (s : UInt64) :
    mix bits p s = 0 := by
  -- the highest bit of a state is taken off, and less is left
  have hbelow : ∀ k ≤ 64, ∀ n < 2 ^ k, mix bits p (UInt64.ofNat n) = 0 := by
    intro k
    induction k with
    | zero =>
      intro _ n hn
      obtain rfl : n = 0 := by omega
      exact mix_state_zero bits p
    | succ k ih =>
      intro hk n hn
      by_cases hlt : n < 2 ^ k
      · exact ih (by omega) n hlt
      · have hrest : n ^^^ 2 ^ k < 2 ^ k := by
          apply Nat.lt_pow_two_of_testBit
          intro i hi
          rw [Nat.testBit_xor, Nat.testBit_two_pow]
          rcases Nat.lt_or_eq_of_le hi with hi | rfl
          · have hzero : n.testBit i = false :=
              Nat.testBit_lt_two_pow (hn.trans_le (Nat.pow_le_pow_right (by omega) hi))
            simp [hzero, hi.ne]
          · have hone : n.testBit k = true := Nat.testBit_of_two_pow_le_and_two_pow_add_one_gt (by omega) hn
            simp [hone]
        have hsplit : UInt64.ofNat n = UInt64.ofNat (n ^^^ 2 ^ k) ^^^ UInt64.ofNat (2 ^ k) := by
          rw [← UInt64.ofNat_xor, Nat.xor_assoc, Nat.xor_self, Nat.xor_zero]
        rw [hsplit, mix_state_xor, ih (by omega) _ hrest, h k (by omega), UInt64.xor_self]
  have hs := hbelow 64 (Nat.le_refl _) s.toNat s.toNat_lt
  rwa [UInt64.ofNat_toNat] at hs

theorem mix_modulus (s : UInt64) : mix 65 modulus s = 0 := mix_eq_zero (by decide +kernel) s

def shift (p : Nat) : Nat := if 2 ^ 64 ≤ 2 * p then 2 * p ^^^ modulus else 2 * p

theorem shift_lt {p : Nat} (h : p < 2 ^ 64) : shift p < 2 ^ 64 := by
  have hmodulus : modulus < 2 ^ 65 ∧ modulus.testBit 64 = true := by decide +kernel
  unfold shift
  split
  · -- both numbers have bit 64 as their highest
    rename_i hlarge
    apply Nat.lt_pow_two_of_testBit
    intro i hi
    rw [Nat.testBit_xor]
    rcases Nat.lt_or_eq_of_le hi with hi | rfl
    · have hzero : ∀ n < 2 ^ 65, n.testBit i = false := by
        intro n hn
        exact Nat.testBit_lt_two_pow (hn.trans_le (Nat.pow_le_pow_right (by omega) hi))
      rw [hzero _ (by omega), hzero _ hmodulus.1]
      rfl
    · rw [Nat.testBit_of_two_pow_le_and_two_pow_add_one_gt hlarge (by omega), hmodulus.2]
      rfl
  · omega

theorem mix_shift {p : Nat} (h : p < 2 ^ 64) (s : UInt64) : mix 64 (shift p) s = next (mix 64 p s) := by
  rw [← mix_of_lt (shift_lt h), ← mix_double]
  unfold shift
  split
  · rw [mix_xor, mix_modulus, UInt64.xor_zero]
  · rfl

/-! ## Products and powers -/

/-- The bits that combine what the lowest bits of `q` pick from a combination by `p`. -/
def product : (bits : Nat) → (p q : Nat) → Nat
  | 0, _, _ => 0
  | bits + 1, p, q => (if q % 2 = 1 then p else 0) ^^^ product bits (shift p) (q / 2)

theorem product_lt (bits : Nat) {p : Nat} (q : Nat) (h : p < 2 ^ 64) : product bits p q < 2 ^ 64 := by
  induction bits generalizing p q with
  | zero => exact Nat.two_pow_pos 64
  | succ bits ih =>
    refine Nat.xor_lt_two_pow ?_ (ih _ (shift_lt h))
    split
    · exact h
    · exact Nat.two_pow_pos 64

theorem mix_product (bits : Nat) {p : Nat} (q : Nat) (h : p < 2 ^ 64) (s : UInt64) :
    mix 64 (product bits p q) s = mix bits q (mix 64 p s) := by
  induction bits generalizing p q with
  | zero => exact mix_zero 64 s
  | succ bits ih =>
    rw [product, mix_xor, ih _ (shift_lt h), mix_shift h, mix]
    congr 1
    split
    · rfl
    · exact mix_zero 64 s

/-- The bits that combine to the state so many steps on; the number of steps has `bits` bits. -/
def power : (bits : Nat) → (steps : Nat) → Nat
  | 0, _ => 1
  | bits + 1, steps =>
    if steps % 2 = 1 then shift (product 64 (power bits (steps / 2)) (power bits (steps / 2)))
    else product 64 (power bits (steps / 2)) (power bits (steps / 2))

theorem power_lt (bits steps : Nat) : power bits steps < 2 ^ 64 := by
  induction bits generalizing steps with
  | zero =>
    rw [power]
    omega
  | succ bits ih =>
    rw [power]
    split
    · exact shift_lt (product_lt _ _ (ih _))
    · exact product_lt _ _ (ih _)

theorem mix_one (s : UInt64) : mix 64 1 s = s := by
  rw [mix]
  simp [mix_zero]

theorem mix_power {bits steps : Nat} (h : steps < 2 ^ bits) (s : UInt64) :
    mix 64 (power bits steps) s = next^[steps] s := by
  induction bits generalizing steps s with
  | zero =>
    obtain rfl : steps = 0 := by omega
    exact mix_one s
  | succ bits ih =>
    have hhalf : steps / 2 < 2 ^ bits := by
      rw [Nat.pow_succ] at h
      omega
    have hdouble : mix 64 (product 64 (power bits (steps / 2)) (power bits (steps / 2))) s =
        next^[steps / 2 + steps / 2] s := by
      rw [mix_product 64 _ (power_lt _ _), ih hhalf, ih hhalf, iterate_add_apply]
    rw [power]
    split
    · rename_i hodd
      rw [mix_shift (product_lt _ _ (power_lt _ _)), hdouble, ← iterate_succ_apply' next]
      congr 1
      omega
    · rename_i heven
      rw [hdouble]
      congr 1
      omega

/-! ## The cycle -/

def cycle : Nat := UInt64.size - 1

def factors : List Nat := [3, 5, 17, 257, 641, 65537, 6700417]

theorem mem_factors {q : Nat} (hq : q.Prime) (h : q ∣ cycle) : q ∈ factors := by
  have hproduct : cycle = 3 * 5 * 17 * 257 * 641 * 65537 * 6700417 := by decide
  have hprimes : ∀ p ∈ factors, p.Prime := by
    simp only [factors, List.mem_cons, List.not_mem_nil, or_false, forall_eq_or_imp, forall_eq]
    norm_num
  have hequal : ∀ p ∈ factors, q ∣ p → q ∈ factors := by
    intro p hp hqp
    rw [(Nat.prime_dvd_prime_iff_eq hq (hprimes p hp)).mp hqp]
    exact hp
  rw [hproduct] at h
  simp only [hq.dvd_mul] at h
  rcases h with (((((h | h) | h) | h) | h) | h) | h <;> exact hequal _ (by simp [factors]) h

theorem iterate_cycle (s : UInt64) : next^[cycle] s = s := by
  have hpower : power 64 cycle = 1 := by decide +kernel
  have hsteps : cycle < 2 ^ 64 := by decide
  rw [← mix_power hsteps, hpower, mix_one]

/-- What that many steps add to a state can be taken back to the state. -/
theorem difference_undone : ∀ q ∈ factors, ∃ p, product 64 (power 64 (cycle / q) ^^^ 1) p = 1 := by
  intro q hq
  simp only [factors, List.mem_cons, List.not_mem_nil, or_false] at hq
  rcases hq with rfl | rfl | rfl | rfl | rfl | rfl | rfl
  · exact ⟨15511182550047884770, by decide +kernel⟩
  · exact ⟨11814715471047095913, by decide +kernel⟩
  · exact ⟨7202445018898142789, by decide +kernel⟩
  · exact ⟨9031751854939573325, by decide +kernel⟩
  · exact ⟨138158124418806406, by decide +kernel⟩
  · exact ⟨17109817795786126257, by decide +kernel⟩
  · exact ⟨5204763322158105013, by decide +kernel⟩

theorem stays_only_at_zero {q : Nat} (hq : q ∈ factors) {s : UInt64} (h : next^[cycle / q] s = s) : s = 0 := by
  obtain ⟨p, hp⟩ := difference_undone q hq
  have hsteps : cycle / q < 2 ^ 64 := (Nat.div_le_self _ _).trans_lt (by decide)
  have hlt : power 64 (cycle / q) ^^^ 1 < 2 ^ 64 := Nat.xor_lt_two_pow (power_lt _ _) (by decide)
  have hdifference : mix 64 (power 64 (cycle / q) ^^^ 1) s = 0 := by
    rw [mix_xor, mix_power hsteps, mix_one, h, UInt64.xor_self]
  calc s = mix 64 1 s := (mix_one s).symm
    _ = mix 64 p (mix 64 (power 64 (cycle / q) ^^^ 1) s) := by rw [← mix_product 64 p hlt, hp]
    _ = 0 := by rw [hdifference, mix_state_zero]

/-- Every state but zero comes back for the first time when all the others have been. -/
theorem minimalPeriod_next {s : UInt64} (hs : s ≠ 0) : minimalPeriod next s = cycle := by
  obtain ⟨k, hk⟩ := IsPeriodicPt.minimalPeriod_dvd (iterate_cycle s)
  by_contra hne
  have hone : k ≠ 1 := by
    rintro rfl
    omega
  -- an earlier return would also be one after the steps divided by a prime
  obtain ⟨q, hq, j, rfl⟩ := Nat.exists_prime_and_dvd hone
  have hdiv : cycle / q = minimalPeriod next s * j := by
    rw [hk, Nat.mul_left_comm, Nat.mul_div_cancel_left _ hq.pos]
  have hreturn : next^[cycle / q] s = s := by
    rw [hdiv]
    exact isPeriodicPt_iff_minimalPeriod_dvd.mpr ⟨j, rfl⟩
  exact hs (stays_only_at_zero (mem_factors hq ⟨minimalPeriod next s * j, by rw [hk, Nat.mul_left_comm]⟩) hreturn)

theorem card_states : Fintype.card UInt64 = UInt64.size := by
  rw [Fintype.card_congr ⟨UInt64.toFin, UInt64.ofFin, fun _ => rfl, fun _ => rfl⟩, Fintype.card_fin]

/-- From every state but zero every other one is reached. -/
theorem reaches {s t : UInt64} (hs : s ≠ 0) (ht : t ≠ 0) : ∃ n < cycle, next^[n] s = t := by
  have hinjective : Set.InjOn (fun n => next^[n] s) (Finset.range cycle) := by
    have h := iterate_injOn_Iio_minimalPeriod (f := next) (x := s)
    rw [minimalPeriod_next hs] at h
    intro m hm n hn
    exact h (Finset.mem_range.mp hm) (Finset.mem_range.mp hn)
  have hsubset : (Finset.range cycle).image (fun n => next^[n] s) ⊆ Finset.univ.erase 0 := by
    intro u hu
    obtain ⟨n, -, rfl⟩ := Finset.mem_image.mp hu
    exact Finset.mem_erase.mpr ⟨iterate_next_ne_zero hs n, Finset.mem_univ _⟩
  have hall : (Finset.range cycle).image (fun n => next^[n] s) = Finset.univ.erase 0 := by
    apply Finset.eq_of_subset_of_card_le hsubset
    rw [Finset.card_image_of_injOn hinjective, Finset.card_range, Finset.card_erase_of_mem (Finset.mem_univ _),
      Finset.card_univ, card_states]
    exact Nat.le_refl _
  have hmem : t ∈ (Finset.range cycle).image (fun n => next^[n] s) := by
    rw [hall]
    exact Finset.mem_erase.mpr ⟨ht, Finset.mem_univ _⟩
  obtain ⟨n, hn, rfl⟩ := Finset.mem_image.mp hmem
  exact ⟨n, Finset.mem_range.mp hn, rfl⟩

/-- Two steps at a time reach every state too, because the number of them is odd. -/
theorem reaches_evenly {s t : UInt64} (hs : s ≠ 0) (ht : t ≠ 0) : ∃ n < cycle, next^[2 * n] s = t := by
  obtain ⟨n, hn, rfl⟩ := reaches hs ht
  have hodd : cycle % 2 = 1 := by decide
  rcases Nat.mod_two_eq_zero_or_one n with heven | hn'
  · exact ⟨n / 2, by omega, by rw [Nat.mul_div_cancel' (Nat.dvd_of_mod_eq_zero heven)]⟩
  · refine ⟨(n + cycle) / 2, by omega, ?_⟩
    rw [Nat.mul_div_cancel' (by omega), iterate_add_apply, iterate_cycle]

end ExpertRouting.Router
