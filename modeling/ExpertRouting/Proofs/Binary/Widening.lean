/-
  ExpertRouting.Proofs.Binary.Widening — numbers that go through a wider format.

  A fraction rounds to itself where the format has it (`nearest_exact`), so a format that is
  wider in every way has each number of the narrower one (`convert_steps`). On the way to a
  third format nothing is rounded twice (`convert_convert`).
-/

import ExpertRouting.Proofs.Binary.Arithmetic

namespace ExpertRouting

theorem roundDiv_mul_right (tie : Tie) (a b : Nat) {k : Nat} (hk : 0 < k) :
    roundDiv tie (a * k) (b * k) = roundDiv tie a b := by
  have hdiv : a * k / (b * k) = a / b := Nat.mul_div_mul_right a b hk
  have hmod : 2 * (a * k % (b * k)) = 2 * (a % b) * k := by
    rw [Nat.mul_mod_mul_right, Nat.mul_assoc]
  have hlt : 2 * (a % b) * k < b * k ↔ 2 * (a % b) < b := Nat.mul_lt_mul_right hk
  have heq : 2 * (a % b) * k = b * k ↔ 2 * (a % b) = b := Nat.mul_left_inj hk.ne'
  unfold roundDiv
  simp only [hdiv, hmod, hlt, heq]

theorem roundDiv_exact (tie : Tie) (q : Nat) {b : Nat} (hb : 0 < b) : roundDiv tie (q * b) b = q := by
  unfold roundDiv
  simp [Nat.mul_div_cancel q hb, hb]

namespace Binary

variable {f g : Format}

/-- The fraction counts, not its terms. -/
theorem nearest_mul_right (s : Bool) (a b : Nat) {k : Nat} (hk : 0 < k) :
    nearest f s (a * k) (b * k) = nearest f s a b := by
  have htotal : a * k * Nat.pow 2 f.unit = a * Nat.pow 2 f.unit * k := Nat.mul_right_comm _ _ _
  have hgrid : ∀ step, b * k * step = b * step * k := fun step => Nat.mul_right_comm _ _ _
  unfold nearest
  simp only [htotal, hgrid, Nat.mul_div_mul_right _ _ hk, roundDiv_mul_right _ _ _ hk]

/-- What the format has is rounded to itself. -/
theorem nearest_exact (hf : 0 < f.precision) (s : Bool) {a b m p : Nat} (hb : 0 < b)
    (hm : m < 2 ^ f.precision) (ha : a * 2 ^ f.unit = m * 2 ^ p * b) (hfinite : (nearest f s a b).isFinite = true) :
    (nearest f s a b).steps = m * 2 ^ p := by
  have hsteps := (nearest_cases hf s a b).1.resolve_left fun hi => by rw [hi] at hfinite; cases hfinite
  rw [hsteps, ha, Nat.mul_div_cancel _ hb]
  -- the grid is no coarser than the number itself
  have hshift : shiftFor f (m * 2 ^ p) ≤ p := by
    rcases Nat.eq_zero_or_pos (m * 2 ^ p) with hzero | hpos
    · rw [hzero]
      unfold shiftFor
      rw [Nat.log2_zero]
      omega
    · have hlog : (m * 2 ^ p).log2 < f.precision + p := by
        rw [Nat.log2_lt hpos.ne', pow_add]
        exact (Nat.mul_lt_mul_right (Nat.two_pow_pos p)).mpr hm
      unfold shiftFor
      omega
  obtain ⟨d, hd⟩ := Nat.exists_eq_add_of_le hshift
  generalize shiftFor f (m * 2 ^ p) = shift at *
  have hsplit : m * 2 ^ p * b = m * 2 ^ d * (b * 2 ^ shift) := by
    rw [hd, pow_add]
    ring
  rw [hsplit, roundDiv_exact _ _ (Nat.mul_pos hb (Nat.two_pow_pos _)), hd, pow_add]
  ring

/-- A format with as many digits, as fine a step and as wide a range. -/
structure Widens (f g : Format) : Prop where
  precision : f.precision ≤ g.precision
  unit : f.unit ≤ g.unit
  range : f.limit * 2 ^ g.unit ≤ 2 ^ f.unit * g.limit
  digits : 0 < g.precision

theorem widens_binary32 (hf : f = binary16 ∨ f = bfloat16 ∨ f = binary32) : Widens f binary32 := by
  rcases hf with rfl | rfl | rfl <;> exact ⟨by decide, by decide, by decide +kernel, by decide⟩

/-- A wider format has every finite number of a narrower one, in finer steps. -/
theorem convert_steps (h : Widens f g) {x : Binary f} (hx : x.isFinite = true) :
    (convert g x).isFinite = true ∧ (convert g x).isNegative = x.isNegative ∧
      (convert g x).steps = x.steps * 2 ^ (g.unit - f.unit) := by
  have hfinite := convert_isFinite h.digits h.range hx
  refine ⟨hfinite, ?_, ?_⟩
  · rw [convert_eq g hx, nearest_isNegative]
  · rw [convert_eq g hx] at hfinite ⊢
    cases x with
    | finite s m p hc =>
      have hm : m < 2 ^ g.precision := hc.fits.trans_le (Nat.pow_le_pow_right (by norm_num) h.precision)
      have htotal : m * 2 ^ p * 2 ^ g.unit = m * 2 ^ (p + (g.unit - f.unit)) * 2 ^ f.unit := by
        rw [Nat.mul_assoc, ← pow_add, Nat.mul_assoc, ← pow_add, Nat.add_assoc, Nat.sub_add_cancel h.unit]
      have hexact := nearest_exact h.digits s (Nat.two_pow_pos f.unit) hm htotal hfinite
      rw [pow_add, ← Nat.mul_assoc] at hexact
      exact hexact
    | _ => cases hx

/-- A detour through a wider format changes nothing. -/
theorem convert_convert (h : Widens f g) (k : Format) (x : Binary f) : convert k (convert g x) = convert k x := by
  by_cases hx : x.isFinite = true
  · obtain ⟨hfinite, hsign, hsteps⟩ := convert_steps h hx
    have hunit : 2 ^ g.unit = 2 ^ f.unit * 2 ^ (g.unit - f.unit) := by
      rw [← pow_add, Nat.add_sub_cancel' h.unit]
    rw [convert_eq k hfinite, convert_eq k hx, hsign, hsteps, hunit, nearest_mul_right _ _ _ (Nat.two_pow_pos _)]
  · cases x with
    | finite s m p hc => exact absurd rfl hx
    | _ => rfl

end Binary

end ExpertRouting
