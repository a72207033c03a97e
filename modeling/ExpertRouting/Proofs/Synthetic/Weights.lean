/-
  ExpertRouting.Proofs.Synthetic.Weights — the weights of a router are finite.

  Each step of the arithmetic is followed with two bounds (`Binary.Between`): rounding is
  monotone, so the rounded bounds hold of the rounded number. A weight is drawn between a
  hundredth and two. Their sum stays below 2^26 however many there are, because a number there
  is the nearest to itself and two (`foldl_between`); and it is at least a hundredth, so no
  quotient leaves the range (`normalize_isFinite`).
-/

import ExpertRouting.Proofs.Binary.Arithmetic
import ExpertRouting.Proofs.Synthetic.Router

namespace ExpertRouting

namespace Binary

/-- A finite number that is not negative, with bounds on its steps. -/
structure Between {f : Format} (low high : Nat) (x : Binary f) : Prop where
  finite : x.isFinite = true
  positive : x.isNegative = false
  low : low ≤ x.steps
  high : x.steps ≤ high

/-- Two naturals that are rounded to bounds. -/
structure Bounds (f : Format) (a c b low high : Nat) : Prop where
  finite : (nearest f false c b).isFinite = true
  low : low ≤ (nearest f false a b).steps
  high : (nearest f false c b).steps ≤ high

variable {f : Format} {x y : Binary f} {a b c low high low' high' l h : Nat}

/-- What lies between two naturals is rounded between their bounds. -/
theorem nearest_between (hf : 0 < f.precision) (hb : 0 < b) (hbounds : Bounds f a c b low high) {n : Nat} (hlow : a ≤ n)
    (hhigh : n ≤ c) : Between low high (nearest f false n b) := by
  have hfinite := nearest_isFinite_mono hf false hhigh hb hbounds.finite
  refine ⟨hfinite, nearest_isNegative _ _ _, ?_, ?_⟩
  · exact hbounds.low.trans (nearest_steps_mono hf false hlow hfinite)
  · exact (nearest_steps_mono hf false hhigh hbounds.finite).trans hbounds.high

theorem Between.add (hf : 0 < f.precision) (hx : Between low high x) (hy : Between low' high' y)
    (hpos : 0 < low + low') (hbounds : Bounds f (low + low') (high + high') (2 ^ f.unit) l h) : Between l h (x + y) := by
  have hlow : low + low' ≤ x.steps + y.steps := Nat.add_le_add hx.low hy.low
  rw [add_eq hx.finite hy.finite hx.positive hy.positive (hpos.trans_le hlow)]
  exact nearest_between hf (Nat.two_pow_pos _) hbounds hlow (Nat.add_le_add hx.high hy.high)

/-- A quotient is in range where the largest dividend is over the smallest divisor. -/
theorem Between.div_isFinite (hf : 0 < f.precision) (hx : Between low high x) (hy : Between low' high' y)
    (hpos : 0 < low') (hrange : 2 * (high * 2 ^ f.unit) < low' * f.limit) : (x / y).isFinite = true := by
  have hsteps : 0 < y.steps := hpos.trans_le hy.low
  rw [div_eq hx.finite hy.finite hsteps, nearest_isFinite_iff hf _ _ hsteps]
  calc 2 * (x.steps * 2 ^ f.unit) ≤ 2 * (high * 2 ^ f.unit) := Nat.mul_le_mul_left 2 (Nat.mul_le_mul_right _ hx.high)
    _ < low' * f.limit := hrange
    _ ≤ y.steps * f.limit := Nat.mul_le_mul_right _ hy.low

end Binary

open Binary

namespace Router

def one : Nat := 2 ^ binary32.unit

def hundredth : Nat := (Binary.ofDecimal binary32 false 1 (-2)).steps

theorem hundredth_between : Between hundredth hundredth (Binary.ofDecimal binary32 false 1 (-2)) :=
  ⟨by decide +kernel, by decide +kernel, Nat.le_refl _, Nat.le_refl _⟩

theorem drawWeight_between (s : UInt64) : Between hundredth (2 * one) (drawWeight s).1 := by
  have hprecision : 0 < binary32.precision := by decide
  have hword : (next s >>> 40).toNat ≤ 16777216 := by
    have hlt := (next s).toNat_lt
    rw [UInt64.toNat_shiftRight, Nat.shiftRight_eq_div_pow, show (40 : UInt64).toNat % 64 = 40 from rfl]
    omega
  have hcount : Between 0 (16777216 * one) (Binary.ofNat binary32 (next s >>> 40).toNat) :=
    nearest_between (a := 0) (c := 16777216) hprecision Nat.one_pos
      ⟨by decide +kernel, Nat.zero_le _, by decide +kernel⟩ (Nat.zero_le _) hword
  have hscale : (Binary.ofNat binary32 16777216).isFinite = true ∧
      (Binary.ofNat binary32 16777216).steps = 16777216 * one ∧
      (Binary.ofNat binary32 16777216).isNegative = false := by decide +kernel
  have hfraction : Between 0 one (Binary.ofNat binary32 (next s >>> 40).toNat / Binary.ofNat binary32 16777216) := by
    rw [div_eq hcount.finite hscale.1 (by rw [hscale.2.1]; decide +kernel), hcount.positive, hscale.2.2, hscale.2.1]
    exact nearest_between (a := 0) (c := 16777216 * one) hprecision (by decide +kernel)
      ⟨by decide +kernel, Nat.zero_le _, by decide +kernel⟩ (Nat.zero_le _) hcount.high
  exact hfraction.add hprecision hundredth_between (by decide +kernel)
    ⟨by decide +kernel, by decide +kernel, by decide +kernel⟩

theorem drawWeights_between (k : Nat) (s : UInt64) : ∀ w ∈ (drawWeights k s).1, Between hundredth (2 * one) w := by
  induction k generalizing s with
  | zero => exact fun w hw => absurd hw List.not_mem_nil
  | succ k ih => exact List.forall_mem_cons.mpr ⟨drawWeight_between s, ih _⟩

/-- A sum of weights stays below 2^26: what is that large is not moved by two more. -/
theorem foldl_between {ws : List Real32} (hws : ∀ w ∈ ws, Between hundredth (2 * one) w) {sum : Real32}
    (hsum : Between hundredth (2 ^ 26 * one) sum) : Between hundredth (2 ^ 26 * one) (ws.foldl (· + ·) sum) := by
  induction ws generalizing sum with
  | nil => exact hsum
  | cons w ws ih =>
    obtain ⟨hw, hws⟩ := List.forall_mem_cons.mp hws
    exact ih hws (hsum.add (by decide) hw (by decide +kernel) ⟨by decide +kernel, by decide +kernel, by decide +kernel⟩)

theorem normalize_isFinite {ws : List Real32} (hws : ∀ w ∈ ws, Between hundredth (2 * one) w) :
    ∀ w ∈ normalize ws, w.isFinite = true := by
  intro w hw
  rw [normalize, List.mem_mergeSort] at hw
  obtain ⟨v, hv, rfl⟩ := List.mem_map.mp hw
  have hsum : Between hundredth (2 ^ 26 * one) (ws.foldl (· + ·) (Binary.zero false)) := by
    cases ws with
    | nil => cases hv
    | cons first rest =>
      obtain ⟨hfirst, hrest⟩ := List.forall_mem_cons.mp hws
      have hzero : Between 0 0 (Binary.zero false : Real32) := ⟨rfl, rfl, Nat.zero_le _, by decide⟩
      exact foldl_between hrest (hzero.add (by decide) hfirst (by decide +kernel)
        ⟨by decide +kernel, by decide +kernel, by decide +kernel⟩)
  exact (hws v hv).div_isFinite (by decide) hsum (by decide +kernel) (by decide +kernel)

theorem routeToken_isFinite {r r' : Router} {row : Row} (h : r.routeToken = some (row, r')) :
    ∀ w ∈ row.weights, w.isFinite = true := by
  unfold routeToken at h
  split at h
  · cases h
  · cases h
    exact normalize_isFinite (drawWeights_between _ _)

theorem routeBatch_isFinite {r r' : Router} {n : Nat} {rows : List Row} (h : r.routeBatch n = some (rows, r')) :
    ∀ row ∈ rows, ∀ w ∈ row.weights, w.isFinite = true := by
  induction n generalizing r rows with
  | zero =>
    cases h
    exact fun row hrow => absurd hrow List.not_mem_nil
  | succ n ih =>
    obtain ⟨row, next, more, htoken, hmore, rfl⟩ := routeBatch_succ_iff.mp h
    exact List.forall_mem_cons.mpr ⟨routeToken_isFinite htoken, ih hmore⟩

end Router

end ExpertRouting
