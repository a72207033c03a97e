/-
  ExpertRouting.Proofs.Decimal.Shortest — the search for the shortest decimal ends in a hit.

  The first grid of the search is no coarser than the number itself (`leadingPower_le`),
  and a grid whose cells fit between the number and the lower end of its interval has a
  hit (`onGrid_isSome`). So one of the grids of the search has one, and the decimal it gives
  lies in the interval of the number (`shortest_holds`): it is not zero, and it is above the
  number by half a step at most, so for every number but the largest it stays half a step below
  that one (`interval_high_le`).
-/

import Mathlib
import ExpertRouting.Decimal.Shortest
import ExpertRouting.Proofs.Decimal.Digits

namespace ExpertRouting.Decimal

def size (d : Decimal) : ℚ := d.significand * (10 : ℚ) ^ d.exponent

theorem size_pos {d : Decimal} : 0 < d.size ↔ 0 < d.significand := by
  unfold size
  have h10 : (0 : ℚ) < 10 ^ d.exponent := zpow_pos (by norm_num) _
  rw [mul_pos_iff_of_pos_right h10, Nat.cast_pos]

/-! ## Grids -/

/-- A power of ten on the far side of the fraction it is compared with. -/
theorem pow_toNat (power : Int) :
    ((Nat.pow 10 power.toNat : Nat) : ℚ) = 10 ^ power * (Nat.pow 10 (-power).toNat : Nat) := by
  have hpos : ((10 ^ (-power).toNat : Nat) : ℚ) ≠ 0 := by positivity
  rcases Int.le_total 0 power with h | h
  · obtain ⟨k, rfl⟩ := Int.eq_ofNat_of_zero_le h
    simp
  · obtain ⟨k, hk⟩ := Int.eq_ofNat_of_zero_le (Int.neg_nonneg_of_nonpos h)
    obtain rfl : power = -(k : Int) := by omega
    simp

theorem leadingPower_le {a b : Nat} (ha : 0 < a) (hb : 0 < b) : (10 : ℚ) ^ leadingPower a b * b ≤ a := by
  unfold leadingPower
  by_cases hle : b ≤ a
  · rw [if_pos hle]
    have hpow := pow_le_of_digits (Nat.div_pos hle hb)
    have hlen := digits_length_pos (a / b)
    have hexp : ((digits (a / b)).length - 1 : Int) = ((digits (a / b)).length - 1 : Nat) := by omega
    rw [hexp, zpow_natCast]
    exact_mod_cast (Nat.mul_le_mul_right b hpow).trans (Nat.div_mul_le_self a b)
  · rw [if_neg hle]
    have key : ∀ k : Nat, b ≤ a * 10 ^ k → (10 : ℚ) ^ (-(k : Int)) * b ≤ a := by
      intro k hk
      rw [zpow_neg, zpow_natCast, inv_mul_le_iff₀ (by positivity), mul_comm]
      exact_mod_cast hk
    by_cases hpow : b ≤ a * Nat.pow 10 ((digits (b / a)).length - 1)
    · simp only [if_pos hpow]
      exact key _ hpow
    · simp only [if_neg hpow]
      refine key _ ?_
      have hlt := lt_pow_digits (b / a)
      have hdiv := Nat.lt_mul_div_succ b ha
      exact hdiv.le.trans (Nat.mul_le_mul_left a hlt)

/-- A number lies in an interval, and at an end of it only if the ends belong to it. -/
structure Interval.Holds (i : Interval) (x : ℚ) : Prop where
  low : i.low ≤ x
  high : x ≤ i.high
  ends : x = i.low ∨ x = i.high → i.closed = true

theorem Interval.contains_holds {i : Interval} {x : Nat} (h : i.contains x = true) : i.Holds x := by
  unfold contains at h
  split at h
  · rename_i hclosed
    simp only [Bool.and_eq_true, decide_eq_true_eq] at h
    exact ⟨Nat.cast_le.mpr h.1, Nat.cast_le.mpr h.2, fun _ => hclosed⟩
  · simp only [Bool.and_eq_true, decide_eq_true_eq] at h
    refine ⟨Nat.cast_le.mpr h.1.le, Nat.cast_le.mpr h.2.le, ?_⟩
    rintro (hend | hend)
    · exact absurd (Nat.cast_injective hend) h.1.ne'
    · exact absurd (Nat.cast_injective hend) h.2.ne

/-- What lies in an interval still does when both are counted in larger units. -/
theorem Interval.holds_of_scaled {i : Interval} {up : Nat} {x : ℚ} (hup : 0 < up)
    (h : (Interval.mk (i.low * up) (i.value * up) (i.high * up) i.closed).Holds (x * up)) : i.Holds x := by
  have hpos : (0 : ℚ) < up := Nat.cast_pos.mpr hup
  have hlow := h.low
  have hhigh := h.high
  simp only [Nat.cast_mul] at hlow hhigh
  refine ⟨le_of_mul_le_mul_right hlow hpos, le_of_mul_le_mul_right hhigh hpos, fun hend => h.ends ?_⟩
  simp only [Nat.cast_mul]
  exact hend.imp (fun he => by rw [he]) fun he => by rw [he]

theorem onGrid_holds {tie : Tie} {i : Interval} {unit n : Nat} {power : Int} (h : onGrid? tie i unit power = some n) :
    i.Holds (size ⟨n, power⟩ * unit) := by
  have hin : (Interval.mk (i.low * Nat.pow 10 (-power).toNat) (i.value * Nat.pow 10 (-power).toNat)
      (i.high * Nat.pow 10 (-power).toNat) i.closed).Holds (n * (unit * Nat.pow 10 power.toNat) : Nat) := by
    unfold onGrid? at h
    simp only at h
    split at h
    · rename_i hbelow habove
      cases h
      split
      · exact Interval.contains_holds hbelow
      · exact Interval.contains_holds habove
    · rename_i hbelow _
      cases h
      exact Interval.contains_holds hbelow
    · rename_i _ habove
      cases h
      exact Interval.contains_holds habove
    · cases h
  have hcell : ((n * (unit * Nat.pow 10 power.toNat) : Nat) : ℚ) =
      size ⟨n, power⟩ * unit * (Nat.pow 10 (-power).toNat : Nat) := by
    rw [Nat.cast_mul, Nat.cast_mul, pow_toNat, size]
    ring
  rw [hcell] at hin
  exact Interval.holds_of_scaled (Nat.pow_pos (by norm_num)) hin

/-- A grid has a hit when one of its cells fits between the number and the lower end. -/
theorem onGrid_isSome (tie : Tie) {i : Interval} {unit : Nat} {power : Int} (hunit : 0 < unit)
    (hhigh : i.value < i.high) (hcell : (10 : ℚ) ^ power * unit ≤ i.value - i.low) :
    (onGrid? tie i unit power).isSome = true := by
  have hup : 0 < Nat.pow 10 (-power).toNat := Nat.pow_pos (by norm_num)
  have hpos : 0 < unit * Nat.pow 10 power.toNat := Nat.mul_pos hunit (Nat.pow_pos (by norm_num))
  have hfits : i.low * Nat.pow 10 (-power).toNat + unit * Nat.pow 10 power.toNat ≤
      i.value * Nat.pow 10 (-power).toNat := by
    have h := mul_le_mul_of_nonneg_right hcell (Nat.cast_nonneg (Nat.pow 10 (-power).toNat))
    have hpow := pow_toNat power
    have hq : ((i.low * Nat.pow 10 (-power).toNat + unit * Nat.pow 10 power.toNat : Nat) : ℚ) ≤
        (i.value * Nat.pow 10 (-power).toNat : Nat) := by
      rw [Nat.cast_add, Nat.cast_mul, Nat.cast_mul, Nat.cast_mul, hpow]
      linarith
    exact_mod_cast hq
  have hlt := (Nat.mul_lt_mul_right hup).mpr hhigh
  unfold onGrid?
  simp only
  generalize unit * Nat.pow 10 power.toNat = cell at *
  generalize i.value * Nat.pow 10 (-power).toNat = value at *
  have hbelow : (Interval.mk (i.low * Nat.pow 10 (-power).toNat) value (i.high * Nat.pow 10 (-power).toNat)
      i.closed).contains (value / cell * cell) = true := by
    have hdiv := Nat.div_mul_le_self value cell
    have hnext := Nat.lt_div_mul_add hpos (a := value)
    unfold Interval.contains
    split
    all_goals simp only [Bool.and_eq_true, decide_eq_true_eq]; omega
  rw [hbelow]
  split <;> simp_all

/-- The search ends in the interval when the last of its grids has a hit. -/
theorem search_holds (tie : Tie) {i : Interval} {unit : Nat} (hunit : 0 < unit) (hhigh : i.value < i.high)
    (grids : Nat) (power : Int) (hlast : (10 : ℚ) ^ (power - grids) * unit ≤ i.value - i.low) :
    i.Holds ((search tie i unit (grids + 1) power).size * unit) := by
  induction grids generalizing power with
  | zero =>
    have hsome := onGrid_isSome tie hunit hhigh (by simpa using hlast)
    obtain ⟨n, hn⟩ := Option.isSome_iff_exists.mp hsome
    rw [search, hn]
    exact onGrid_holds hn
  | succ grids ih =>
    rw [search]
    cases hn : onGrid? tie i unit power with
    | some n => exact onGrid_holds hn
    | none =>
      refine ih (power - 1) ?_
      rwa [show power - 1 - grids = power - (grids + 1 : Nat) by omega]

theorem trim_size (fuel : Nat) (d : Decimal) : (trim fuel d).size = d.size := by
  induction fuel generalizing d with
  | zero => rfl
  | succ fuel ih =>
    rw [trim]
    split
    · rename_i h
      rw [ih, size, size, zpow_add_one₀ (by norm_num)]
      have hten : (d.significand : ℚ) = 10 * (d.significand / 10 : Nat) := by
        exact_mod_cast (Nat.mul_div_cancel' (Nat.dvd_of_mod_eq_zero h)).symm
      rw [hten]
      ring
    · rfl

/-! ## The shortest decimal -/

variable {f : Format} {m p : Nat}

/-- The lower end is at least a quarter step below the number, and the upper one half a step above it. -/
theorem interval_bounds (hm : 0 < m) : (interval f m p).low + Nat.pow 2 p ≤ (interval f m p).value ∧
    (interval f m p).value < (interval f m p).high ∧ 0 < (interval f m p).low := by
  have hp : 0 < Nat.pow 2 p := Nat.two_pow_pos p
  simp only [interval]
  refine ⟨?_, (Nat.mul_lt_mul_right hp).mpr (by omega), Nat.mul_pos (by split <;> omega) hp⟩
  rw [← Nat.succ_mul]
  exact Nat.mul_le_mul_right _ (by split <;> omega)

/-- The interval of every number but the largest ends half a step below that one. -/
theorem interval_high_le (hf : 1 < f.precision) (hc : f.Canonical m p)
    (h : ¬ (m = 2 ^ f.precision - 1 ∧ p = f.maxShift)) :
    (interval f m p).high ≤ (4 * (2 ^ f.precision - 2) + 2) * 2 ^ f.maxShift := by
  have hfull : 2 ^ 2 ≤ 2 ^ f.precision := Nat.pow_le_pow_right (by norm_num) hf
  have hm : m < 2 ^ f.precision := hc.fits
  show (4 * m + 2) * 2 ^ p ≤ _
  rcases hc.inRange.lt_or_eq with hlt | heq
  · calc (4 * m + 2) * 2 ^ p ≤ (4 * (2 ^ f.precision - 2) + 2) * 2 * 2 ^ p := Nat.mul_le_mul_right _ (by omega)
      _ = (4 * (2 ^ f.precision - 2) + 2) * 2 ^ (p + 1) := by rw [Nat.mul_assoc, ← pow_succ']
      _ ≤ _ := Nat.mul_le_mul_left _ (Nat.pow_le_pow_right (by norm_num) hlt)
  · rw [heq]
    exact Nat.mul_le_mul_right _ (by omega)

theorem shortest_holds (tie : Tie) (hf : 0 < f.precision) (hm : 0 < m) (hfits : m < Nat.pow 2 f.precision) :
    (interval f m p).Holds ((shortest tie f m p).size * (4 * Nat.pow 2 f.unit : Nat)) := by
  obtain ⟨hlow, hhigh, hpos⟩ := interval_bounds (f := f) (p := p) hm
  have hunit : 0 < 4 * Nat.pow 2 f.unit := Nat.mul_pos (by norm_num) (Nat.two_pow_pos _)
  have hvalue : 0 < (interval f m p).value := by omega
  unfold shortest
  simp only [trim_size]
  refine search_holds tie hunit hhigh f.precision _ ?_
  have hlead := leadingPower_le hvalue hunit
  have hten : (interval f m p).value ≤ Nat.pow 2 p * Nat.pow 10 f.precision := by
    -- the number has no more binary digits than ten to the number of grids
    have h8 : 4 * 2 ^ f.precision ≤ 10 ^ f.precision := by
      obtain ⟨k, hk⟩ := Nat.exists_eq_succ_of_ne_zero hf.ne'
      rw [hk, pow_succ, pow_succ]
      have := Nat.pow_le_pow_left (show 2 ≤ 10 by norm_num) k
      omega
    have h4 : 4 * m ≤ Nat.pow 10 f.precision := (Nat.mul_le_mul_left 4 hfits.le).trans h8
    simp only [interval]
    rw [Nat.mul_comm (Nat.pow 2 p)]
    exact Nat.mul_le_mul_right _ h4
  have hpow : (0 : ℚ) < 10 ^ f.precision := by positivity
  rw [zpow_sub₀ (by norm_num), zpow_natCast, div_mul_eq_mul_div, div_le_iff₀ hpow]
  have hgap : ((Nat.pow 2 p : Nat) : ℚ) ≤ (interval f m p).value - (interval f m p).low := by
    have : (((interval f m p).low + Nat.pow 2 p : Nat) : ℚ) ≤ (interval f m p).value := by exact_mod_cast hlow
    push_cast at this ⊢
    linarith
  calc _ ≤ ((interval f m p).value : ℚ) := hlead
    _ ≤ (Nat.pow 2 p : Nat) * 10 ^ f.precision := by exact_mod_cast hten
    _ ≤ _ := mul_le_mul_of_nonneg_right hgap hpow.le

theorem shortest_significand_pos (tie : Tie) (hf : 0 < f.precision) (hm : 0 < m)
    (hfits : m < Nat.pow 2 f.precision) : 0 < (shortest tie f m p).significand := by
  have hlow := (shortest_holds (p := p) tie hf hm hfits).low
  have hpos : (0 : ℚ) < (interval f m p).low := by exact_mod_cast (interval_bounds hm).2.2
  have hunit : (0 : ℚ) < (4 * Nat.pow 2 f.unit : Nat) := by
    exact_mod_cast Nat.mul_pos (by norm_num) (Nat.two_pow_pos _)
  exact size_pos.mp (pos_of_mul_pos_left (hpos.trans_le hlow) hunit.le)

end ExpertRouting.Decimal
