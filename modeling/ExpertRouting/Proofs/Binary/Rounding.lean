/-
  ExpertRouting.Proofs.Binary.Rounding — which fractions round to a finite number.

  Counted in smallest steps a fraction is finite after rounding exactly when it lies below
  the largest number and half the last step (`nearest_isFinite_iff`): there the largest
  significand is odd, and a tie goes up. The number it rounds to has at most twice its
  steps (`nearest_steps_le`), and no more steps than a larger fraction gets
  (`nearest_steps_mono`). All three rest on one fact about the grid that is chosen for a
  fraction: its significand fits, and is full unless the step is the smallest (`grid`).
-/

import Mathlib
import ExpertRouting.Binary.Arithmetic

namespace ExpertRouting

/-! ## Naturals -/

theorem div_le_roundDiv (tie : Tie) (a b : Nat) : a / b ≤ roundDiv tie a b := by
  unfold roundDiv
  cases tie <;> simp only <;> split_ifs <;> omega

theorem roundDiv_le (tie : Tie) (a b : Nat) : roundDiv tie a b ≤ a / b + 1 := by
  unfold roundDiv
  cases tie <;> simp only <;> split_ifs <;> omega

/-- Rounding at most doubles: it goes up only from a half on. -/
theorem roundDiv_mul_le (tie : Tie) (a b : Nat) : roundDiv tie a b * b ≤ 2 * a := by
  have hdiv := Nat.div_add_mod a b
  have hcomm := Nat.mul_comm b (a / b)
  by_cases hup : roundDiv tie a b = a / b
  · rw [hup]
    omega
  · have hrest : b ≤ 2 * (a % b) ∧ roundDiv tie a b = a / b + 1 := by
      unfold roundDiv at hup ⊢
      cases tie <;> simp only at hup ⊢ <;> split_ifs at hup ⊢ <;> omega
    rw [hrest.2, Nat.add_mul, Nat.one_mul]
    omega

theorem roundDiv_mono (tie : Tie) {a a' : Nat} (b : Nat) (h : a ≤ a') : roundDiv tie a b ≤ roundDiv tie a' b := by
  rcases (Nat.div_le_div_right h : a / b ≤ a' / b).lt_or_eq with hlt | heq
  · exact (roundDiv_le tie a b).trans (Nat.le_trans hlt (div_le_roundDiv tie a' b))
  · have hdiv := Nat.div_add_mod a b
    have hdiv' := Nat.div_add_mod a' b
    rw [heq] at hdiv
    have hrest : a % b ≤ a' % b := by omega
    unfold roundDiv
    rw [heq]
    cases tie <;> simp only <;> split_ifs <;> omega

theorem two_mul_lt_iff {a b : Nat} (hb : 0 < b) (m : Nat) :
    2 * a < (2 * m + 1) * b ↔ a / b < m ∨ a / b = m ∧ 2 * (a % b) < b := by
  have hdiv := Nat.div_add_mod a b
  have hrest := Nat.mod_lt a hb
  generalize a / b = q at *
  generalize a % b = r at *
  have hm : (2 * m + 1) * b = 2 * (b * m) + b := by ring
  rw [hm]
  rcases Nat.lt_trichotomy q m with h | rfl | h
  · obtain ⟨k, rfl⟩ := Nat.exists_eq_add_of_lt h
    have : b * (q + k + 1) = b * q + b * k + b := by ring
    exact ⟨fun _ => .inl h, fun _ => by omega⟩
  · simp only [lt_irrefl, true_and, false_or]
    omega
  · obtain ⟨k, rfl⟩ := Nat.exists_eq_add_of_lt h
    have : b * (m + k + 1) = b * m + b * k + b := by ring
    constructor
    · intro hlt
      omega
    · rintro (hlt | ⟨heq, -⟩) <;> omega

/-- Rounding to even stays below an even number exactly below the half before it. -/
theorem roundDiv_even_lt_iff {a b n : Nat} (hb : 0 < b) (hn : n % 2 = 0) (hpos : 0 < n) :
    roundDiv .toEven a b < n ↔ 2 * a < (2 * n - 1) * b := by
  rw [show 2 * n - 1 = 2 * (n - 1) + 1 by omega, two_mul_lt_iff hb]
  unfold roundDiv
  simp only
  split_ifs <;> omega

namespace Binary

variable {f : Format}

/-! ## The grid of a fraction -/

theorem ofParts_isFinite (s : Bool) (m p : Nat) : (ofParts f s m p).isFinite = true ↔ f.Canonical m p := by
  unfold ofParts
  split
  · rename_i h
    exact iff_of_true rfl h
  · rename_i h
    exact iff_of_false Bool.false_ne_true h

/-- What is rounded is a number: if it is not finite, it is infinite. -/
theorem nearest_isInfinite (s : Bool) (a b : Nat) : (nearest f s a b).isInfinite = !(nearest f s a b).isFinite := by
  have hparts : ∀ m p, (ofParts f s m p).isInfinite = !(ofParts f s m p).isFinite := by
    intro m p
    unfold ofParts
    split <;> rfl
  unfold nearest
  simp only
  split <;> exact hparts _ _

@[simp] theorem nearest_isNegative (s : Bool) (a b : Nat) : (nearest f s a b).isNegative = s := by
  have hparts : ∀ m p, (ofParts f s m p).isNegative = s := by
    intro m p
    unfold ofParts
    split <;> rfl
  unfold nearest
  simp only
  split <;> exact hparts _ _

theorem lt_shifted (f : Format) (q : Nat) : q < 2 ^ (f.precision + shiftFor f q) := by
  refine Nat.lt_log2_self.trans_le (Nat.pow_le_pow_right (by norm_num) ?_)
  unfold shiftFor
  omega

theorem shifted_le (hf : 0 < f.precision) {q : Nat} (h : 0 < shiftFor f q) :
    2 ^ (f.precision - 1 + shiftFor f q) ≤ q := by
  unfold shiftFor at h ⊢
  have hq : q ≠ 0 := by
    rintro rfl
    rw [Nat.log2_zero] at h
    omega
  rw [show f.precision - 1 + (q.log2 + 1 - f.precision) = q.log2 by omega]
  exact Nat.log2_self_le hq

/-- The significand that is rounded to fits or is one too large, and it is full unless the step is the smallest. -/
theorem grid (hf : 0 < f.precision) (total b : Nat) :
    roundDiv .toEven total (b * 2 ^ shiftFor f (total / b)) ≤ 2 ^ f.precision ∧
      (shiftFor f (total / b) = 0 ∨
        2 ^ (f.precision - 1) ≤ roundDiv .toEven total (b * 2 ^ shiftFor f (total / b))) := by
  have hdiv : total / (b * 2 ^ shiftFor f (total / b)) = total / b / 2 ^ shiftFor f (total / b) :=
    (Nat.div_div_eq_div_mul _ _ _).symm
  constructor
  · refine (roundDiv_le _ _ _).trans ?_
    rw [hdiv]
    refine Nat.div_lt_of_lt_mul ?_
    rw [← pow_add, Nat.add_comm]
    exact lt_shifted f _
  · rcases Nat.eq_zero_or_pos (shiftFor f (total / b)) with h | h
    · exact .inl h
    · refine .inr (le_trans ?_ (div_le_roundDiv _ _ _))
      rw [hdiv, Nat.le_div_iff_mul_le (Nat.two_pow_pos _), ← pow_add]
      exact shifted_le hf h

/-- A fraction rounds to the significand of its grid, where that is within range. -/
theorem nearest_cases (hf : 0 < f.precision) (s : Bool) (a b : Nat) :
    let shift := shiftFor f (a * 2 ^ f.unit / b)
    let significand := roundDiv .toEven (a * 2 ^ f.unit) (b * 2 ^ shift)
    (nearest f s a b = .infinite s ∨ (nearest f s a b).steps = significand * 2 ^ shift) ∧
      ((nearest f s a b).isFinite = true ↔
        shift < f.maxShift ∨ shift = f.maxShift ∧ significand < 2 ^ f.precision) := by
  intro shift significand
  obtain ⟨hle, hfull⟩ := grid hf (a * 2 ^ f.unit) b
  have hhalf : 2 ^ (f.precision - 1) * 2 = 2 ^ f.precision := by
    rw [← pow_succ, Nat.sub_add_cancel hf]
  have hparts : ∀ m p, ofParts f s m p = .infinite s ∨ (ofParts f s m p).steps = m * 2 ^ p := by
    intro m p
    unfold ofParts
    split
    · exact .inr rfl
    · exact .inl rfl
  have hnearest : nearest f s a b =
      if significand = 2 ^ f.precision then ofParts f s (2 ^ (f.precision - 1)) (shift + 1)
      else ofParts f s significand shift := rfl
  rw [hnearest]
  split
  · rename_i heq
    refine ⟨(hparts _ _).imp_right fun h => ?_, ?_⟩
    · rw [h, heq, ← hhalf, pow_succ]
      ring
    · rw [ofParts_isFinite]
      have hpos := Nat.two_pow_pos (f.precision - 1)
      constructor
      · intro hc
        exact .inl hc.inRange
      · rintro (h | ⟨-, h⟩)
        · exact ⟨by simp only [Nat.pow_eq]; omega, .inr (by simp only [Nat.pow_eq]; omega), h⟩
        · exact absurd heq h.ne
  · rename_i hne
    refine ⟨hparts _ _, ?_⟩
    rw [ofParts_isFinite]
    have hlt : significand < 2 ^ f.precision := lt_of_le_of_ne hle hne
    constructor
    · intro hc
      rcases hc.inRange.lt_or_eq with h | h
      · exact .inl h
      · exact .inr ⟨h, hlt⟩
    · intro h
      exact ⟨hlt, hfull, h.elim (·.le) (·.1.le)⟩

end Binary

/-! ## The range of a format -/

/-- Twice the number of smallest steps from which on a fraction is rounded to infinity. -/
def Format.limit (f : Format) : Nat := (2 ^ (f.precision + 1) - 1) * 2 ^ f.maxShift

namespace Binary

variable {f : Format}

theorem nearest_isFinite_iff (hf : 0 < f.precision) (s : Bool) (a : Nat) {b : Nat} (hb : 0 < b) :
    (nearest f s a b).isFinite = true ↔ 2 * (a * 2 ^ f.unit) < b * f.limit := by
  rw [(nearest_cases hf s a b).2]
  generalize a * 2 ^ f.unit = total
  have hsucc : 2 ^ (f.precision + 1) = 2 * 2 ^ f.precision := by rw [pow_succ, Nat.mul_comm]
  have hpos := Nat.two_pow_pos f.precision
  have hlimit : 2 ^ (f.precision + f.maxShift) ≤ f.limit := by
    rw [pow_add]
    exact Nat.mul_le_mul_right _ (by omega)
  rcases Nat.lt_trichotomy (shiftFor f (total / b)) f.maxShift with h | h | h
  · refine iff_of_true (.inl h) ?_
    have hq : total < b * 2 ^ (f.precision + shiftFor f (total / b)) :=
      (Nat.lt_mul_div_succ total hb).trans_le (Nat.mul_le_mul_left b (lt_shifted f _))
    have hpow : 2 * 2 ^ (f.precision + shiftFor f (total / b)) ≤ 2 ^ (f.precision + f.maxShift) := by
      rw [Nat.mul_comm, ← pow_succ]
      exact Nat.pow_le_pow_right (by norm_num) (by omega)
    calc 2 * total < 2 * (b * 2 ^ (f.precision + shiftFor f (total / b))) := by omega
      _ = b * (2 * 2 ^ (f.precision + shiftFor f (total / b))) := by ring
      _ ≤ b * f.limit := Nat.mul_le_mul_left b (hpow.trans hlimit)
  · simp only [h, lt_irrefl, false_or, true_and]
    have heven : 2 ^ f.precision % 2 = 0 := by
      obtain ⟨k, hk⟩ := Nat.exists_eq_succ_of_ne_zero hf.ne'
      rw [hk, pow_succ]
      omega
    rw [roundDiv_even_lt_iff (Nat.mul_pos hb (Nat.two_pow_pos _)) heven hpos, Format.limit, hsucc, Nat.mul_left_comm]
  · refine iff_of_false (by omega) (not_lt_of_ge ?_)
    have hq : b * 2 ^ (f.precision + f.maxShift) ≤ total := by
      refine (Nat.mul_le_mul_left b ?_).trans (Nat.mul_div_le total b)
      refine (Nat.pow_le_pow_right (by norm_num) ?_).trans (shifted_le hf (q := total / b) (by omega))
      omega
    calc b * f.limit ≤ b * (2 * 2 ^ (f.precision + f.maxShift)) := by
          refine Nat.mul_le_mul_left b ?_
          rw [Format.limit, hsucc, pow_add, ← Nat.mul_assoc]
          exact Nat.mul_le_mul_right _ (Nat.sub_le _ _)
      _ = 2 * (b * 2 ^ (f.precision + f.maxShift)) := by ring
      _ ≤ 2 * total := Nat.mul_le_mul_left 2 hq

theorem nearest_isFinite_mono (hf : 0 < f.precision) (s : Bool) {a a' b : Nat} (h : a ≤ a') (hb : 0 < b)
    (hfinite : (nearest f s a' b).isFinite = true) : (nearest f s a b).isFinite = true := by
  rw [nearest_isFinite_iff hf s _ hb] at hfinite ⊢
  exact (Nat.mul_le_mul_left 2 (Nat.mul_le_mul_right _ h)).trans_lt hfinite

theorem shiftFor_mono (f : Format) {q q' : Nat} (h : q ≤ q') : shiftFor f q ≤ shiftFor f q' := by
  have hlog : q.log2 ≤ q'.log2 := by
    rcases Nat.eq_zero_or_pos q with rfl | hq
    · exact Nat.log2_zero ▸ Nat.zero_le _
    · exact (Nat.le_log2 (by omega)).mpr ((Nat.log2_self_le hq.ne').trans h)
  unfold shiftFor
  omega

/-- A larger fraction rounds to no fewer steps, as long as it is in range. -/
theorem nearest_steps_mono (hf : 0 < f.precision) (s : Bool) {a a' b : Nat} (h : a ≤ a')
    (hfinite : (nearest f s a' b).isFinite = true) : (nearest f s a b).steps ≤ (nearest f s a' b).steps := by
  have htotal : a * 2 ^ f.unit ≤ a' * 2 ^ f.unit := Nat.mul_le_mul_right _ h
  have hshift := shiftFor_mono f (Nat.div_le_div_right htotal (c := b))
  have hlarger := (nearest_cases hf s a' b).1.resolve_left fun hi => by rw [hi] at hfinite; cases hfinite
  have hsmaller : (nearest f s a b).steps ≤
      roundDiv .toEven (a * 2 ^ f.unit) (b * 2 ^ shiftFor f (a * 2 ^ f.unit / b)) *
        2 ^ shiftFor f (a * 2 ^ f.unit / b) := by
    rcases (nearest_cases hf s a b).1 with hi | hi
    · rw [hi]
      exact Nat.zero_le _
    · exact hi.le
  have hle := (grid hf (a * 2 ^ f.unit) b).1
  have hfull := (grid hf (a' * 2 ^ f.unit) b).2
  rw [hlarger]
  refine hsmaller.trans ?_
  generalize a * 2 ^ f.unit = total at *
  generalize a' * 2 ^ f.unit = total' at *
  rcases hshift.lt_or_eq with hlt | heq
  · -- the finer grid ends where the coarser one begins
    have hfull := hfull.resolve_left (Nat.zero_lt_of_lt hlt).ne'
    calc _ ≤ 2 ^ f.precision * 2 ^ shiftFor f (total / b) := Nat.mul_le_mul_right _ hle
      _ = 2 ^ (f.precision - 1) * 2 ^ (shiftFor f (total / b) + 1) := by
        rw [← pow_add, ← pow_add]
        congr 1
        omega
      _ ≤ _ := Nat.mul_le_mul hfull (Nat.pow_le_pow_right (by norm_num) hlt)
  · rw [heq]
    exact Nat.mul_le_mul_right _ (roundDiv_mono _ _ htotal)

theorem nearest_steps_le (hf : 0 < f.precision) (s : Bool) (a b : Nat) :
    (nearest f s a b).steps * b ≤ 2 * (a * 2 ^ f.unit) := by
  rcases (nearest_cases hf s a b).1 with h | h
  · rw [h]
    simp [steps]
  · rw [h]
    generalize 2 ^ shiftFor f (a * 2 ^ f.unit / b) = step
    rw [Nat.mul_assoc, Nat.mul_comm step b]
    exact roundDiv_mul_le _ _ _

end Binary

end ExpertRouting
