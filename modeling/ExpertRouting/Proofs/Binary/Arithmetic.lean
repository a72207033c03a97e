/-
  ExpertRouting.Proofs.Binary.Arithmetic — operations on finite numbers, in steps.

  Every operation on finite numbers rounds one fraction of their steps (`mul_eq`, `div_eq`,
  `roundToInteger_eq`, `convert_eq`), and no finite number has more steps than the largest
  one (`steps_le`). So a product is finite exactly when it is below the range of the format
  (`mul_isFinite_iff`), and the integer nearest a finite number is always finite
  (`roundToInteger_isFinite`).
-/

import ExpertRouting.Proofs.Binary.Rounding

namespace ExpertRouting

theorem roundDiv_le_of_le (tie : Tie) {a b n : Nat} (hb : 0 < b) (h : a ≤ n * b) : roundDiv tie a b ≤ n := by
  rcases (Nat.div_le_of_le_mul (by rwa [Nat.mul_comm] at h) : a / b ≤ n).lt_or_eq with hlt | heq
  · exact (roundDiv_le tie a b).trans hlt
  · have hdiv := Nat.div_add_mod a b
    rw [heq, Nat.mul_comm] at hdiv
    have hrest : a % b = 0 := by omega
    unfold roundDiv
    simp [hrest, hb, heq]

theorem Format.largest_lt_limit (f : Format) : 2 * ((2 ^ f.precision - 1) * 2 ^ f.maxShift) < f.limit := by
  have hpos := Nat.two_pow_pos f.precision
  have hsucc : 2 ^ (f.precision + 1) = 2 * 2 ^ f.precision := by rw [pow_succ, Nat.mul_comm]
  rw [limit, hsucc, ← Nat.mul_assoc]
  exact (Nat.mul_lt_mul_right (Nat.two_pow_pos _)).mpr (by omega)

namespace Binary

variable {f : Format} {x y : Binary f}

theorem steps_le (x : Binary f) : x.steps ≤ (2 ^ f.precision - 1) * 2 ^ f.maxShift := by
  cases x with
  | finite s m p h => exact Nat.mul_le_mul (Nat.le_sub_one_of_lt h.fits) (Nat.pow_le_pow_right (by norm_num) h.inRange)
  | _ => exact Nat.zero_le _

theorem two_mul_steps_lt (x : Binary f) : 2 * x.steps < f.limit :=
  (Nat.mul_le_mul_left 2 x.steps_le).trans_lt f.largest_lt_limit

/-! ## Operations -/

theorem mul_eq (hx : x.isFinite = true) (hy : y.isFinite = true) :
    x * y = nearest f (x.isNegative != y.isNegative) (x.steps * y.steps) (2 ^ (2 * f.unit)) := by
  cases x with
  | finite s m p hc =>
    cases y with
    | finite t n q hd => rfl
    | _ => cases hy
  | _ => cases hx

theorem div_eq (hx : x.isFinite = true) (hy : y.isFinite = true) (h : 0 < y.steps) :
    x / y = nearest f (x.isNegative != y.isNegative) x.steps y.steps := by
  cases x with
  | finite s m p hc =>
    cases y with
    | finite t n q hd =>
      have hn : n ≠ 0 := by
        rintro rfl
        simp [steps] at h
      show div _ _ = _
      rw [div, if_neg hn]
      rfl
    | _ => cases hy
  | _ => cases hx

/-- A sum of numbers that are not negative, unless it is zero. -/
theorem add_eq (hx : x.isFinite = true) (hy : y.isFinite = true) (hxs : x.isNegative = false)
    (hys : y.isNegative = false) (h : 0 < x.steps + y.steps) :
    x + y = nearest f false (x.steps + y.steps) (2 ^ f.unit) := by
  have htotal : x.scaled + y.scaled = ((x.steps + y.steps : Nat) : Int) := by
    rw [scaled, scaled, hxs, hys]
    simp
  cases x with
  | finite s m p hc =>
    cases y with
    | finite t n q hd =>
      show add _ _ = _
      rw [add]
      simp only [htotal]
      rw [if_neg (by omega), Int.natAbs_natCast, decide_eq_false (by omega)]
      rfl
    | _ => cases hy
  | _ => cases hx

theorem roundToInteger_eq (hx : x.isFinite = true) :
    x.roundToInteger = nearest f x.isNegative (roundDiv .away x.steps (2 ^ f.unit)) 1 := by
  cases x with
  | finite s m p hc => rfl
  | _ => cases hx

theorem convert_eq (g : Format) (hx : x.isFinite = true) :
    convert g x = nearest g x.isNegative x.steps (2 ^ f.unit) := by
  cases x with
  | finite s m p hc => rfl
  | _ => cases hx

/-! ## Numbers that are not finite stay so -/

theorem roundToInteger_not_finite (h : x.isFinite = false) : x.roundToInteger.isFinite = false := by
  cases x with
  | finite s m p hc => cases h
  | _ => rfl

theorem div_not_finite (h : x.isFinite = false) : (x / y).isFinite = false := by
  cases x with
  | finite s m p hc => cases h
  | _ => cases y <;> rfl

theorem isFinite_of_mul (h : (x * y).isFinite = true) : x.isFinite = true ∧ y.isFinite = true := by
  cases x with
  | finite s m p hc =>
    cases y with
    | finite t n q hd => exact ⟨rfl, rfl⟩
    | nan => cases h
    | infinite t =>
      have hmul : (Binary.finite s m p hc * Binary.infinite t : Binary f) = if m = 0 then .nan else .infinite (s != t) := rfl
      rw [hmul] at h
      split at h <;> cases h
  | nan => cases h
  | infinite s =>
    cases y with
    | finite t n q hd =>
      have hmul : (Binary.infinite s * Binary.finite t n q hd : Binary f) = if n = 0 then .nan else .infinite (s != t) := rfl
      rw [hmul] at h
      split at h <;> cases h
    | nan => cases h
    | infinite t => cases h

/-! ## Ranges -/

theorem mul_isFinite_iff (hf : 0 < f.precision) (hx : x.isFinite = true) (hy : y.isFinite = true) :
    (x * y).isFinite = true ↔ 2 * (x.steps * y.steps) < 2 ^ f.unit * f.limit := by
  rw [mul_eq hx hy, nearest_isFinite_iff hf _ _ (Nat.two_pow_pos _), Nat.two_mul f.unit, pow_add]
  rw [show 2 * (x.steps * y.steps * 2 ^ f.unit) = 2 ^ f.unit * (2 * (x.steps * y.steps)) by ring, Nat.mul_assoc]
  exact Nat.mul_lt_mul_left (Nat.two_pow_pos _)

/-- A product of finite numbers is finite or infinite. -/
theorem mul_isFinite (hx : x.isFinite = true) (hy : y.isFinite = true) (h : (x * y).isInfinite = false) :
    (x * y).isFinite = true := by
  rw [mul_eq hx hy] at h ⊢
  rwa [nearest_isInfinite, Bool.not_eq_false'] at h

/-- A finite number over one of at least one is finite. -/
theorem div_isFinite (hf : 0 < f.precision) (hx : x.isFinite = true) (hy : y.isFinite = true)
    (hone : 2 ^ f.unit ≤ y.steps) : (x / y).isFinite = true := by
  have hpos : 0 < y.steps := (Nat.two_pow_pos _).trans_le hone
  rw [div_eq hx hy hpos, nearest_isFinite_iff hf _ _ hpos]
  calc 2 * (x.steps * 2 ^ f.unit) = 2 ^ f.unit * (2 * x.steps) := by ring
    _ < 2 ^ f.unit * f.limit := (Nat.mul_lt_mul_left (Nat.two_pow_pos _)).mpr x.two_mul_steps_lt
    _ ≤ y.steps * f.limit := Nat.mul_le_mul_right _ hone

theorem convert_isFinite {g : Format} (hg : 0 < g.precision) (hrange : f.limit * 2 ^ g.unit ≤ 2 ^ f.unit * g.limit)
    (hx : x.isFinite = true) : (convert g x).isFinite = true := by
  rw [convert_eq g hx, nearest_isFinite_iff hg _ _ (Nat.two_pow_pos _)]
  calc 2 * (x.steps * 2 ^ g.unit) = 2 ^ g.unit * (2 * x.steps) := by ring
    _ < 2 ^ g.unit * f.limit := (Nat.mul_lt_mul_left (Nat.two_pow_pos _)).mpr x.two_mul_steps_lt
    _ = f.limit * 2 ^ g.unit := Nat.mul_comm _ _
    _ ≤ 2 ^ f.unit * g.limit := hrange

/-- The integer nearest a number is in range where the largest number is an integer. -/
theorem roundToInteger_isFinite (hf : 0 < f.precision) (hunit : f.unit ≤ f.maxShift) (hx : x.isFinite = true) :
    x.roundToInteger.isFinite = true := by
  rw [roundToInteger_eq hx, nearest_isFinite_iff hf _ _ Nat.one_pos, Nat.one_mul]
  have hsplit : 2 ^ f.maxShift = 2 ^ (f.maxShift - f.unit) * 2 ^ f.unit := by
    rw [← pow_add, Nat.sub_add_cancel hunit]
  have hle : roundDiv .away x.steps (2 ^ f.unit) ≤ (2 ^ f.precision - 1) * 2 ^ (f.maxShift - f.unit) := by
    refine roundDiv_le_of_le _ (Nat.two_pow_pos _) ?_
    rw [Nat.mul_assoc, ← hsplit]
    exact x.steps_le
  calc 2 * (roundDiv .away x.steps (2 ^ f.unit) * 2 ^ f.unit)
      ≤ 2 * ((2 ^ f.precision - 1) * 2 ^ (f.maxShift - f.unit) * 2 ^ f.unit) :=
        Nat.mul_le_mul_left 2 (Nat.mul_le_mul_right _ hle)
    _ = 2 * ((2 ^ f.precision - 1) * 2 ^ f.maxShift) := by rw [hsplit, Nat.mul_assoc]
    _ < f.limit := f.largest_lt_limit

end Binary

end ExpertRouting
