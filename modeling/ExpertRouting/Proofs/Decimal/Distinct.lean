/-
  ExpertRouting.Proofs.Decimal.Distinct — no two numbers share a shortest decimal.

  A larger number has no smaller a step (`Canonical.shift_le`), so the intervals of two
  numbers do not overlap: that of the smaller ends where the other begins at the latest
  (`interval_below`). Where they meet the two are neighbours, one of their significands is
  odd, and the end they share is not its own. So a decimal lies in the interval of one number
  only (`eq_of_holds`).
-/

import ExpertRouting.Proofs.Decimal.Shortest

namespace ExpertRouting

variable {f : Format} {m p m' p' : Nat}

/-! ## Canonical numbers -/

theorem Format.Canonical.shift_le (hf : 0 < f.precision) (h : f.Canonical m p) (h' : f.Canonical m' p')
    (hle : m * 2 ^ p ≤ m' * 2 ^ p') : p ≤ p' := by
  by_contra hlt
  have hfull : 2 ^ (f.precision - 1) ≤ m := h.full.resolve_left (by omega)
  have hfits : m' < 2 ^ f.precision := h'.fits
  have hless : m' * 2 ^ p' < m * 2 ^ p := by
    calc m' * 2 ^ p' < 2 ^ f.precision * 2 ^ p' := (Nat.mul_lt_mul_right (Nat.two_pow_pos p')).mpr hfits
      _ = 2 ^ (f.precision - 1) * 2 ^ (p' + 1) := by
        rw [← pow_add, ← pow_add]
        congr 1
        omega
      _ ≤ m * 2 ^ p := Nat.mul_le_mul hfull (Nat.pow_le_pow_right (by norm_num) (by omega))
  omega

/-- A number has one significand and one shift. -/
theorem Format.Canonical.unique (hf : 0 < f.precision) (h : f.Canonical m p) (h' : f.Canonical m' p')
    (heq : m * 2 ^ p = m' * 2 ^ p') : m = m' ∧ p = p' := by
  obtain rfl : p = p' := Nat.le_antisymm (h.shift_le hf h' heq.le) (h'.shift_le hf h heq.ge)
  exact ⟨Nat.eq_of_mul_eq_mul_right (Nat.two_pow_pos p) heq, rfl⟩

theorem Binary.eq_of_steps (hf : 0 < f.precision) {x y : Binary f} (hx : x.isFinite = true) (hy : y.isFinite = true)
    (hsign : x.isNegative = y.isNegative) (hsteps : x.steps = y.steps) : x = y := by
  cases x with
  | finite s m p h =>
    cases y with
    | finite t n q h' =>
      obtain ⟨rfl, rfl⟩ := h.unique hf h' hsteps
      obtain rfl : s = t := hsign
      rfl
    | _ => cases hy
  | _ => cases hx

/-! ## Intervals -/

namespace Decimal

theorem interval_below (hf : 0 < f.precision) (hc : f.Canonical m p) (hc' : f.Canonical m' p')
    (hlt : m * 2 ^ p < m' * 2 ^ p') :
    (interval f m p).high < (interval f m' p').low ∨
      (interval f m p).high = (interval f m' p').low ∧ ¬(m % 2 = 0 ∧ m' % 2 = 0) := by
  have hpos := Nat.two_pow_pos p
  have hhalf : 2 ^ f.precision = 2 * 2 ^ (f.precision - 1) := by
    rw [← pow_succ', Nat.sub_add_cancel hf]
  have hfits : m < 2 ^ f.precision := hc.fits
  simp only [interval, Nat.pow_eq]
  rcases (hc.shift_le hf hc' hlt.le).eq_or_lt with rfl | hshift
  · -- the numbers have the same step, so they are at least one step apart
    have hless : m < m' := Nat.lt_of_mul_lt_mul_right hlt
    rcases (Nat.succ_le_of_lt hless).eq_or_lt with rfl | hfar
    · split_ifs
      · exact .inl ((Nat.mul_lt_mul_right hpos).mpr (by omega))
      · exact .inr ⟨congrArg (· * 2 ^ p) (by omega), by omega⟩
    · exact .inl ((Nat.mul_lt_mul_right hpos).mpr (by split_ifs <;> omega))
  · -- the larger number has a full significand and at least twice the step
    have hfull : 2 ^ (f.precision - 1) ≤ m' := hc'.full.resolve_left (by omega)
    have hstep : 2 ^ (p + 1) ≤ 2 ^ p' := Nat.pow_le_pow_right (by norm_num) hshift
    rw [pow_succ] at hstep
    split_ifs with hfirst
    · have hlow : (4 * m' - 1) * (2 ^ p * 2) ≤ (4 * m' - 1) * 2 ^ p' := Nat.mul_le_mul_left _ hstep
      have hhigh : (4 * m + 2) * 2 ^ p ≤ (4 * m' - 1) * (2 ^ p * 2) := by
        rw [Nat.mul_comm (2 ^ p) 2, ← Nat.mul_assoc]
        exact Nat.mul_le_mul_right _ (by omega)
      rcases (hhigh.trans hlow).eq_or_lt with heq | hless
      · refine .inr ⟨heq, fun heven => ?_⟩
        have htop : (4 * m + 2) * 2 ^ p = (4 * m' - 1) * 2 * 2 ^ p := by
          rw [Nat.mul_assoc _ 2, Nat.mul_comm 2]
          exact le_antisymm hhigh (hlow.trans heq.ge)
        have hlast := Nat.eq_of_mul_eq_mul_right hpos htop
        omega
      · exact .inl hless
    · refine .inl ?_
      have hmore : 2 ^ (f.precision - 1) < m' := by
        refine hfull.lt_of_ne fun h => hfirst ⟨h.symm, by omega⟩
      calc (4 * m + 2) * 2 ^ p < (4 * m' - 2) * 2 * 2 ^ p := (Nat.mul_lt_mul_right hpos).mpr (by omega)
        _ = (4 * m' - 2) * (2 ^ p * 2) := by ring
        _ ≤ (4 * m' - 2) * 2 ^ p' := Nat.mul_le_mul_left _ hstep

theorem not_holds_both (hf : 0 < f.precision) (hc : f.Canonical m p) (hc' : f.Canonical m' p')
    (hlt : m * 2 ^ p < m' * 2 ^ p') {x : ℚ} (h : (interval f m p).Holds x) : ¬ (interval f m' p').Holds x := by
  intro h'
  rcases interval_below hf hc hc' hlt with hless | ⟨hmeet, hodd⟩
  · have hgap : ((interval f m p).high : ℚ) < (interval f m' p').low := Nat.cast_lt.mpr hless
    linarith [h.high, h'.low]
  · have hend : ((interval f m p).high : ℚ) = (interval f m' p').low := congrArg Nat.cast hmeet
    have hclosed := h.ends (.inr (le_antisymm h.high (hend.trans_le h'.low)))
    have hclosed' := h'.ends (.inl (le_antisymm (h.high.trans_eq hend) h'.low))
    exact hodd ⟨beq_iff_eq.mp hclosed, beq_iff_eq.mp hclosed'⟩

/-- What lies in the intervals of two numbers is of one. -/
theorem eq_of_holds (hf : 0 < f.precision) (hc : f.Canonical m p) (hc' : f.Canonical m' p') {x : ℚ}
    (h : (interval f m p).Holds x) (h' : (interval f m' p').Holds x) : m = m' ∧ p = p' := by
  rcases Nat.lt_trichotomy (m * 2 ^ p) (m' * 2 ^ p') with hlt | heq | hlt
  · exact absurd h' (not_holds_both hf hc hc' hlt h)
  · exact hc.unique hf hc' heq
  · exact absurd h (not_holds_both hf hc' hc hlt h')

end Decimal

end ExpertRouting
