/-
  ExpertRouting.Proofs.Trace.Weight — how far weights can be rounded.

  A weight is scaled by a million before it is rounded, so the largest finite weights leave
  the range on the way: a rounded weight is finite exactly when the scaled one is
  (`roundWeight_isFinite_iff`). No weight that was widened from a narrower format comes near
  (`convert_scales`).
-/

import ExpertRouting.Proofs.Binary.Arithmetic
import ExpertRouting.Trace.Record

namespace ExpertRouting

/-- A weight whose millionfold is in range: below the largest number and half its last step. -/
def Binary.Scales (w : Real64) : Prop := w.steps * 1000000 < (2 ^ 54 - 1) * 2 ^ 2044

instance (w : Real64) : Decidable w.Scales := inferInstanceAs (Decidable (_ < _))

theorem weightScale_isFinite : weightScale.isFinite = true := by decide +kernel

theorem weightScale_steps : weightScale.steps = 1000000 * 2 ^ binary64.unit := by decide +kernel

theorem scales_iff (w : Real64) : w.Scales ↔ 2 * (w.steps * 1000000) < binary64.limit := by
  have hlimit : binary64.limit = 2 * ((2 ^ 54 - 1) * 2 ^ 2044) := by decide +kernel
  rw [hlimit]
  exact (Nat.mul_lt_mul_left Nat.two_pos).symm

theorem scaled_isFinite_iff {w : Real64} (hw : w.isFinite = true) : (w * weightScale).isFinite = true ↔ w.Scales := by
  rw [Binary.mul_isFinite_iff (by decide) hw weightScale_isFinite, weightScale_steps, scales_iff]
  rw [show 2 * (w.steps * (1000000 * 2 ^ binary64.unit)) = 2 ^ binary64.unit * (2 * (w.steps * 1000000)) by ring]
  exact Nat.mul_lt_mul_left (Nat.two_pow_pos _)

theorem div_weightScale_isFinite {x : Real64} (hx : x.isFinite = true) : (x / weightScale).isFinite = true := by
  refine Binary.div_isFinite (by decide) hx weightScale_isFinite ?_
  rw [weightScale_steps]
  exact Nat.le_mul_of_pos_left _ (by norm_num)

/-- A finite weight is rounded to a finite one exactly when its millionfold is in range. -/
theorem roundWeight_isFinite_iff {w : Real64} (hw : w.isFinite = true) :
    (roundWeight w).isFinite = true ↔ w.Scales := by
  rw [← scaled_isFinite_iff hw, roundWeight]
  constructor
  · intro h
    -- what has left the range does not come back
    by_contra hne
    have hrounded := Binary.roundToInteger_not_finite (Bool.eq_false_of_not_eq_true hne)
    exact Bool.false_ne_true ((Binary.div_not_finite hrounded).symm.trans h)
  · intro h
    exact div_weightScale_isFinite (Binary.roundToInteger_isFinite (by decide) (by decide) h)

/-- A weight of a narrower format is rounded to a finite one. -/
theorem convert_scales {f : Format} (hf : f = binary16 ∨ f = bfloat16 ∨ f = binary32) (x : Binary f) :
    (Binary.convert binary64 x).Scales := by
  by_cases hx : x.isFinite = true
  · have hsteps := Binary.nearest_steps_le (f := binary64) (by decide) x.isNegative x.steps (2 ^ f.unit)
    rw [← Binary.convert_eq binary64 hx] at hsteps
    have hrange : f.limit * 2 ^ binary64.unit * 1000000 ≤ (2 ^ 54 - 1) * 2 ^ 2044 * 2 ^ f.unit := by
      rcases hf with rfl | rfl | rfl <;> decide +kernel
    have hlt := x.two_mul_steps_lt
    unfold Binary.Scales
    generalize (Binary.convert binary64 x).steps = n at *
    refine Nat.lt_of_mul_lt_mul_right (a := 2 ^ f.unit) (lt_of_lt_of_le ?_ hrange)
    have hscaled : 2 * x.steps * 2 ^ binary64.unit < f.limit * 2 ^ binary64.unit :=
      (Nat.mul_lt_mul_right (Nat.two_pow_pos _)).mpr hlt
    generalize 2 ^ binary64.unit = step at *
    calc n * 1000000 * 2 ^ f.unit = n * 2 ^ f.unit * 1000000 := by ring
      _ ≤ 2 * (x.steps * step) * 1000000 := Nat.mul_le_mul_right _ hsteps
      _ < f.limit * step * 1000000 := by
        rw [← Nat.mul_assoc]
        exact (Nat.mul_lt_mul_right (by norm_num)).mpr hscaled
  · have hconv : (Binary.convert binary64 x).steps = 0 := by
      cases x with
      | finite s m p hc => exact absurd rfl hx
      | _ => rfl
    unfold Binary.Scales
    rw [hconv]
    decide +kernel

theorem roundWeight_convert_isFinite {w : Real32} (hw : w.isFinite = true) :
    (Binary.convert binary64 w).isFinite = true ∧ (roundWeight (Binary.convert binary64 w)).isFinite = true := by
  have hwide : (Binary.convert binary64 w).isFinite = true :=
    Binary.convert_isFinite (by decide) (by decide +kernel) hw
  exact ⟨hwide, (roundWeight_isFinite_iff hwide).mpr (convert_scales (Or.inr (Or.inr rfl)) w)⟩

end ExpertRouting
