/-
  ExpertRouting.Proofs.Json.Number — every numeral that is written has a value.

  A numeral is worth its digits times its power of ten (`Numeral.size`), and the layouts only
  move the point, so a written numeral is worth the decimal it lays out (`numeral_size`). A
  reader of reals takes no more of it than it is worth (`takeFitting_le`) and refuses it only
  when the product with the power of ten leaves the range. That product rounds twice, so it
  could leave the range close to the largest real; but up to half a step below that one it does
  not (`scale_isSome`), and the largest real itself is read. So no written real is refused
  (`value_ofBinary_isSome`), and of all reals exactly the finite ones are decoded
  (`real_ofReal_iff`). What is read is finite in turn (`toReal_isFinite`), so a real can be
  written and read any number of times.
-/

import ExpertRouting.Proofs.Binary.Arithmetic
import ExpertRouting.Proofs.Json.Field

namespace ExpertRouting

open Json

def Numeral.size (n : Numeral) : ℚ :=
  Digit.value (n.whole ++ n.fraction) * (10 : ℚ) ^ (powerValue n.power - n.fraction.length)

/-! ## The worth of written numerals -/

namespace Layout

theorem value_zeros (k : Nat) : Digit.value (List.replicate k .zero) = 0 := by
  induction k with
  | zero => rfl
  | succ k ih =>
    rw [List.replicate_succ', Digit.value_append, ih, Digit.value_singleton]
    rfl

theorem placed_size (l : Layout) (s : Bool) (ds : List Digit) (exponent : Int) :
    (l.placed s ds exponent).size = Digit.value ds * (10 : ℚ) ^ exponent := by
  unfold placed Numeral.size
  by_cases hexp : 0 ≤ exponent
  · obtain ⟨k, rfl⟩ := Int.eq_ofNat_of_zero_le hexp
    have hpoint : (if l.pointZero then [Digit.zero] else []) = List.replicate (if l.pointZero then 1 else 0) .zero := by
      cases l.pointZero <;> rfl
    simp only [if_pos hexp, hpoint, Digit.value_append, value_zeros, List.length_replicate, powerValue, Int.toNat_natCast]
    generalize (if l.pointZero then 1 else 0) = places
    rw [zero_sub, zpow_neg, zpow_natCast, zpow_natCast]
    have : (10 : ℚ) ^ places ≠ 0 := by positivity
    push_cast
    field_simp
    ring
  obtain ⟨k, hk⟩ := Int.eq_ofNat_of_zero_le (show 0 ≤ -exponent by omega)
  obtain rfl : exponent = -(k : Int) := by omega
  by_cases hplaces : k < ds.length
  · simp only [if_neg hexp, neg_neg, Int.toNat_natCast, if_pos hplaces, List.take_append_drop, List.length_drop,
      powerValue]
    congr 2
    omega
  · simp only [if_neg hexp, neg_neg, Int.toNat_natCast, if_neg hplaces, Digit.value_append, value_zeros,
      List.length_append, List.length_replicate, powerValue]
    rw [show Digit.value [.zero] = 0 from rfl]
    simp only [zero_mul, zero_add]
    congr 2
    omega

theorem powerValue_digits (first : Int) : powerValue (some ⟨first < 0, digits first.natAbs⟩) = first := by
  simp only [powerValue, value_digits, decide_eq_true_eq]
  split <;> omega

theorem powered_size (s : Bool) {ds : List Digit} (hds : ds ≠ []) (first : Int) :
    (powered s ds first).size = Digit.value ds * (10 : ℚ) ^ (first + 1 - ds.length) := by
  have hlen := List.length_pos_of_ne_nil hds
  simp only [powered, Numeral.size, List.take_append_drop, List.length_drop, powerValue_digits]
  congr 2
  omega

theorem numeral_size (l : Layout) (s : Bool) (d : Decimal) : (l.numeral s d).size = d.size := by
  unfold numeral
  simp only
  split
  · rw [placed_size, value_digits]
    rfl
  · rw [powered_size s (digits_ne_nil _), value_digits, Decimal.size]
    congr 2
    omega

end Layout

namespace Json

/-- Digits in front of the point are few where a file writes them in place. -/
theorem numeral_whole_le (s : Bool) (d : Decimal) : (layout.numeral s d).whole.length ≤ 16 := by
  have hlen := digits_length_pos d.significand
  unfold Layout.numeral
  simp only
  split
  · rename_i hfirst
    simp only [layout, Bool.and_eq_true, decide_eq_true_eq] at hfirst
    unfold Layout.placed
    by_cases hexp : 0 ≤ d.exponent
    · simp only [if_pos hexp, List.length_append, List.length_replicate]
      omega
    by_cases hplaces : (-d.exponent).toNat < (digits d.significand).length
    · simp only [if_neg hexp, if_pos hplaces, List.length_take]
      omega
    · simp only [if_neg hexp, if_neg hplaces, List.length_singleton]
      omega
  · exact (List.length_take_le _ _).trans (by decide)

/-! ## Taking digits -/

/-- What is taken fits, and is worth no more than all the digits. -/
theorem takeFitting_le (ds : List Digit) : ∀ significand < UInt64.size,
    (takeFitting significand ds).1 < UInt64.size ∧ (takeFitting significand ds).2.length ≤ ds.length ∧
      (takeFitting significand ds).1 * 10 ^ (takeFitting significand ds).2.length ≤
        significand * 10 ^ ds.length + Digit.value ds := by
  induction ds with
  | nil => intro significand h; exact ⟨h, Nat.le_refl _, Nat.le_refl _⟩
  | cons d ds ih =>
    intro significand h
    unfold takeFitting
    simp only
    split
    · rename_i hnext
      obtain ⟨hfits, hlen, hle⟩ := ih _ hnext
      refine ⟨hfits, hlen.trans (Nat.le_succ _), hle.trans (Nat.le_of_eq ?_)⟩
      have hvalue := Digit.value_append [d] ds
      rw [Digit.value_singleton, List.singleton_append] at hvalue
      rw [hvalue, List.length_cons, pow_succ]
      ring
    · exact ⟨h, Nat.le_refl _, Nat.le_add_right _ _⟩

theorem takeFitting_eq (ds : List Digit) : ∀ significand, significand * 10 ^ ds.length + Digit.value ds < UInt64.size →
    takeFitting significand ds = (significand * 10 ^ ds.length + Digit.value ds, []) := by
  induction ds with
  | nil => intro significand _; simp [takeFitting, Digit.value]
  | cons d ds ih =>
    intro significand h
    have hvalue := Digit.value_append [d] ds
    rw [Digit.value_singleton, List.singleton_append] at hvalue
    have hsum : significand * 10 ^ (d :: ds).length + Digit.value (d :: ds) =
        (10 * significand + d.val) * 10 ^ ds.length + Digit.value ds := by
      rw [hvalue, List.length_cons, pow_succ]
      ring
    rw [hsum] at h ⊢
    have hnext : 10 * significand + d.val < UInt64.size := by
      refine lt_of_le_of_lt ?_ h
      exact (Nat.le_mul_of_pos_right _ (Nat.pow_pos (by norm_num))).trans (Nat.le_add_right _ _)
    rw [takeFitting]
    simp only [if_pos hnext]
    exact ih _ h

/-! ## Powers of ten -/

/-- Half a step below the largest real. -/
def edge : Nat := (2 ^ 54 - 3) * 2 ^ 970

theorem powerOfTen_eq (n : Nat) : powerOfTen n = Binary.ofNat binary64 (10 ^ n) := by
  unfold powerOfTen Binary.ofDecimal Binary.ofNat
  rw [if_neg (by omega), Nat.one_mul]
  rfl

/-- The powers for which the largest significand may not be the one that fits. -/
def lastSmallPower : Nat := 284

theorem edge_isFinite : ∀ k < 25, (Binary.ofNat binary64 (min (UInt64.size - 1) (edge / 10 ^ (lastSmallPower + k))) *
    Binary.ofNat binary64 (10 ^ (lastSmallPower + k))).isFinite = true := by
  decide +kernel

/-! ## Written reals -/

/-- A product of naturals is in range where that of larger ones is. -/
theorem ofNat_mul_isFinite {a a' b b' : Nat} (ha : a ≤ a') (hb : b ≤ b')
    (h : (Binary.ofNat binary64 a' * Binary.ofNat binary64 b').isFinite = true) :
    (Binary.ofNat binary64 a * Binary.ofNat binary64 b).isFinite = true := by
  have hprecision : 0 < binary64.precision := by decide
  obtain ⟨ha', hb'⟩ := Binary.isFinite_of_mul h
  have hfinite : (Binary.ofNat binary64 a).isFinite = true :=
    Binary.nearest_isFinite_mono hprecision false ha Nat.one_pos ha'
  have hfinite' : (Binary.ofNat binary64 b).isFinite = true :=
    Binary.nearest_isFinite_mono hprecision false hb Nat.one_pos hb'
  rw [Binary.mul_isFinite_iff hprecision ha' hb'] at h
  rw [Binary.mul_isFinite_iff hprecision hfinite hfinite']
  refine lt_of_le_of_lt (Nat.mul_le_mul_left 2 (Nat.mul_le_mul ?_ ?_)) h
  · exact Binary.nearest_steps_mono hprecision false ha ha'
  · exact Binary.nearest_steps_mono hprecision false hb hb'

theorem product_isFinite {m n : Nat} (hm : m < UInt64.size) (hn : n ≤ maxPower) (h : m * 10 ^ n ≤ edge) :
    (Binary.ofNat binary64 m * Binary.ofNat binary64 (10 ^ n)).isFinite = true := by
  have hten : 0 < 10 := by norm_num
  by_cases hsmall : n ≤ lastSmallPower
  · have hroom : UInt64.size - 1 ≤ edge / 10 ^ lastSmallPower := by decide +kernel
    have hcorner := edge_isFinite 0 (by norm_num)
    rw [Nat.add_zero, Nat.min_eq_left hroom] at hcorner
    exact ofNat_mul_isFinite (Nat.le_sub_one_of_lt hm) (Nat.pow_le_pow_right hten hsmall) hcorner
  · obtain ⟨k, rfl⟩ := Nat.exists_eq_add_of_le (Nat.le_of_not_le hsmall)
    have hk : k < 25 := by
      unfold lastSmallPower maxPower at *
      omega
    refine ofNat_mul_isFinite ?_ (Nat.le_refl _) (edge_isFinite k hk)
    exact Nat.le_min.mpr ⟨Nat.le_sub_one_of_lt hm, (Nat.le_div_iff_mul_le (Nat.pow_pos hten)).mpr h⟩

/-- A significand with a power of ten has a value up to half a step below the largest real. -/
theorem scale_isSome {significand : Nat} {power : Int} (hfits : significand < UInt64.size)
    (h : (significand : ℚ) * 10 ^ power ≤ edge) : (scale? significand power).isSome = true := by
  unfold scale?
  simp only
  by_cases hneg : power < 0
  · rw [if_pos hneg]
    rfl
  obtain ⟨n, rfl⟩ := Int.eq_ofNat_of_zero_le (Int.not_lt.mp hneg)
  rw [zpow_natCast] at h
  have hle : significand * 10 ^ n ≤ edge := by exact_mod_cast h
  rw [if_neg hneg, Int.natAbs_natCast]
  by_cases hn : n ≤ maxPower
  · have hfinite := product_isFinite hfits hn hle
    rw [if_pos hn, powerOfTen_eq]
    generalize Binary.ofNat binary64 significand * Binary.ofNat binary64 (10 ^ n) = y at hfinite
    cases y with
    | finite s m p hc => rfl
    | _ => cases hfinite
  · -- a power as large as this leaves room for nothing but zero
    have hzero : significand = 0 := by
      by_contra hne
      have hroom : edge < 10 ^ (maxPower + 1) := by decide +kernel
      have hpow : 10 ^ (maxPower + 1) ≤ 10 ^ n := Nat.pow_le_pow_right (by norm_num) (by omega)
      have hself := Nat.le_mul_of_pos_left (10 ^ n) (Nat.pos_of_ne_zero hne)
      omega
    have hvalue : (Binary.ofNat binary64 0).isZero = true := by decide +kernel
    rw [if_neg hn, hzero, if_pos hvalue]
    rfl

theorem realValue_isSome {n : Numeral} (hwhole : n.whole.length ≤ 16) (h : n.size ≤ edge) :
    (realValue? n).isSome = true := by
  have hsmall : 0 * 10 ^ n.whole.length + Digit.value n.whole < UInt64.size := by
    have hlt := Digit.value_lt n.whole
    have hpow : 10 ^ n.whole.length ≤ 10 ^ 16 := Nat.pow_le_pow_right (by norm_num) hwhole
    have hsize : 10 ^ 16 < UInt64.size := by decide
    omega
  have hall := takeFitting_eq n.whole 0 hsmall
  obtain ⟨hfits, hlen, hle⟩ := takeFitting_le n.fraction _ hsmall
  rw [Nat.zero_mul, Nat.zero_add] at hall hfits hlen hle
  unfold realValue?
  simp only [hall, Option.isSome_map, List.length_nil]
  rw [← Digit.value_append] at hle
  generalize takeFitting (Digit.value n.whole) n.fraction = taken at hfits hlen hle
  refine scale_isSome hfits (le_trans ?_ h)
  have hten : (10 : ℚ) ≠ 0 := by norm_num
  rw [show (Nat.cast 0 : Int) - (n.fraction.length - taken.2.length) + powerValue n.power =
    taken.2.length + (powerValue n.power - n.fraction.length) by push_cast; ring, zpow_add₀ hten, zpow_natCast,
    ← mul_assoc, Numeral.size]
  exact mul_le_mul_of_nonneg_right (by exact_mod_cast hle) (zpow_nonneg (by norm_num) _)

theorem value_isSome {n : Numeral} (hwhole : n.whole.length ≤ 16) (h : n.size ≤ edge) : (value? n).isSome = true := by
  unfold value?
  simp only
  split_ifs
  · rfl
  · rfl
  · rw [Option.isSome_map]
    exact realValue_isSome hwhole h

/-- The shortest decimal of every real but the largest is at least half a step below it. -/
theorem shortest_le_edge {m p : Nat} (hc : binary64.Canonical m p) (hm : 0 < m)
    (h : ¬ (m = 2 ^ binary64.precision - 1 ∧ p = binary64.maxShift)) :
    (Decimal.shortest layout.tie binary64 m p).size ≤ edge := by
  have hprecision : 1 < binary64.precision := by decide
  have hhigh := (Decimal.shortest_holds (p := p) layout.tie (Nat.zero_lt_of_lt hprecision) hm hc.fits).high
  have hle := Decimal.interval_high_le hprecision hc h
  have hedge : (4 * (2 ^ binary64.precision - 2) + 2) * 2 ^ binary64.maxShift =
      edge * (4 * Nat.pow 2 binary64.unit) := by decide +kernel
  have hpow : ∀ unit, 0 < 4 * Nat.pow 2 unit := fun unit => Nat.mul_pos (by norm_num) (Nat.two_pow_pos unit)
  have hstep := hpow binary64.unit
  rw [hedge] at hle
  generalize 4 * Nat.pow 2 binary64.unit = step at *
  have hpos : (0 : ℚ) < step := Nat.cast_pos.mpr hstep
  refine le_of_mul_le_mul_right (hhigh.trans ?_) hpos
  rw [← Nat.cast_mul]
  exact Nat.cast_le.mpr hle

theorem value_ofBinary_isSome {x : Real64} {n : Numeral} (hn : layout.ofBinary? x = some n) :
    (value? n).isSome = true := by
  unfold Layout.ofBinary? at hn
  split at hn
  · rename_i s m p hc
    split at hn
    · cases hn
      refine value_isSome (numeral_whole_le s _) ?_
      rw [Layout.numeral_size, Decimal.size, Nat.cast_zero, zero_mul]
      exact Nat.cast_nonneg _
    · cases hn
      by_cases hlargest : m = 2 ^ binary64.precision - 1 ∧ p = binary64.maxShift
      · obtain ⟨rfl, rfl⟩ := hlargest
        revert s
        decide +kernel
      · refine value_isSome (numeral_whole_le s _) ?_
        rw [Layout.numeral_size]
        exact shortest_le_edge hc (by omega) hlargest
  · cases hn

theorem fault_ofReal (x : Real64) (depth : Nat) : (ofReal x).reading.fault? depth = none := by
  unfold ofReal
  cases hn : layout.ofBinary? x with
  | some n => simp [reading, Reading.fault?, value_ofBinary_isSome hn]
  | none => rfl

/-- Exactly the finite reals are decoded as reals. -/
theorem real_ofReal_iff (x : Real64) : (∃ y, Json.real (ofReal x).reading = .ok y) ↔ x.isFinite = true := by
  rw [← Layout.ofBinary_isSome layout x]
  unfold ofReal
  cases hn : layout.ofBinary? x with
  | some n =>
    obtain ⟨v, hv⟩ := Option.isSome_iff_exists.mp (value_ofBinary_isSome hn)
    simp [reading, Json.real, anyNumber, hv, Except.map]
  | none => simp [reading, Json.real, anyNumber, otherKind, refuse, Reading.fault?, Except.map]

theorem reread?_isSome_iff (x : Real64) : (reread? x).isSome = true ↔ x.isFinite = true := by
  rw [← real_ofReal_iff x, reread?_eq]
  cases Json.real (ofReal x).reading <;> simp [Except.toOption]

/-! ## Read reals -/

theorem ofNat_isFinite {n : Nat} (h : n < UInt64.size) : (Binary.ofNat binary64 n).isFinite = true :=
  Binary.nearest_isFinite_mono (by decide) false h.le Nat.one_pos
    (show (Binary.ofNat binary64 UInt64.size).isFinite = true by decide +kernel)

theorem neg_isFinite (x : Real64) : (-x).isFinite = x.isFinite := by
  cases x <;> rfl

/-- A power of ten that is one factor is finite and at least one. -/
theorem powerOfTen_spec {n : Nat} (h : n ≤ maxPower) :
    (powerOfTen n).isFinite = true ∧ 2 ^ binary64.unit ≤ (powerOfTen n).steps := by
  have hprecision : 0 < binary64.precision := by decide
  have hlargest : (Binary.ofNat binary64 (10 ^ maxPower)).isFinite = true := by decide +kernel
  have hfinite : (Binary.ofNat binary64 (10 ^ n)).isFinite = true :=
    Binary.nearest_isFinite_mono hprecision false (Nat.pow_le_pow_right (by norm_num) h) Nat.one_pos hlargest
  have hone : 2 ^ binary64.unit = (Binary.ofNat binary64 1).steps := by decide +kernel
  rw [powerOfTen_eq, hone]
  exact ⟨hfinite, Binary.nearest_steps_mono hprecision false (Nat.one_le_pow _ _ (by norm_num)) hfinite⟩

theorem divideByPower_isFinite {n : Nat} (hn : n ≤ maxPower) (rounds : Nat) :
    ∀ {x : Real64}, x.isFinite = true → (divideByPower x n rounds).isFinite = true := by
  have hdiv : ∀ {x : Real64} {n : Nat}, n ≤ maxPower → x.isFinite = true → (x / powerOfTen n).isFinite = true := by
    intro x n hn hx
    obtain ⟨hfinite, hone⟩ := powerOfTen_spec hn
    exact Binary.div_isFinite (by decide) hx hfinite hone
  induction rounds with
  | zero => exact hdiv hn
  | succ rounds ih =>
    intro x hx
    rw [divideByPower]
    split
    · exact hx
    · exact ih (hdiv (Nat.le_refl _) hx)

theorem isFinite_of_scale {significand : Nat} {power : Int} {x : Real64} (hfits : significand < UInt64.size)
    (h : scale? significand power = some x) : x.isFinite = true := by
  have hsignificand := ofNat_isFinite hfits
  unfold scale? at h
  simp only at h
  split at h
  · cases h
    exact divideByPower_isFinite (Nat.mod_lt _ (by decide)) _ hsignificand
  split at h
  · rename_i hn
    split at h
    · cases h
    · rename_i hinfinite
      cases h
      exact Binary.mul_isFinite hsignificand (powerOfTen_spec hn).1 (Bool.eq_false_of_not_eq_true hinfinite)
  split at h
  · cases h
    exact hsignificand
  · cases h

theorem toReal_isFinite {n : Numeral} {v : Number} (h : value? n = some v) : v.toReal.isFinite = true := by
  unfold value? at h
  simp only at h
  split at h
  · rename_i hnatural
    simp only [Bool.and_eq_true, decide_eq_true_eq] at hnatural
    cases h
    exact ofNat_isFinite hnatural.2
  split at h
  · rename_i hnegative
    simp only [Bool.and_eq_true, decide_eq_true_eq] at hnegative
    cases h
    rw [Number.toReal, neg_isFinite]
    exact ofNat_isFinite (hnegative.2.trans_lt (by decide))
  · obtain ⟨x, hx, rfl⟩ := Option.map_eq_some_iff.mp h
    unfold realValue? at hx
    simp only at hx
    obtain ⟨y, hy, rfl⟩ := Option.map_eq_some_iff.mp hx
    have hwhole := (takeFitting_le n.whole 0 (by decide)).1
    have hfinite := isFinite_of_scale (takeFitting_le n.fraction _ hwhole).1 hy
    rw [Number.toReal]
    split
    · rw [neg_isFinite]
      exact hfinite
    · exact hfinite

theorem reread?_isFinite {x y : Real64} (h : reread? x = some y) : y.isFinite = true := by
  rw [reread?_eq] at h
  cases hreading : Json.real (ofReal x).reading with
  | error fault =>
    rw [hreading] at h
    cases h
  | ok z =>
    rw [hreading] at h
    cases h
    rw [Json.real] at hreading
    unfold ofReal at hreading
    cases hn : layout.ofBinary? x with
    | none =>
      rw [hn] at hreading
      cases hreading
    | some n =>
      obtain ⟨v, hv⟩ := Option.isSome_iff_exists.mp (value_ofBinary_isSome hn)
      simp only [hn, reading, anyNumber, hv, Except.map, Except.ok.injEq] at hreading
      rw [← hreading]
      exact toReal_isFinite hv

/-- A finite real comes back from its text, finite again. -/
theorem reread?_of_isFinite {x : Real64} (h : x.isFinite = true) :
    reread? x = some (reread x) ∧ (reread x).isFinite = true := by
  obtain ⟨y, hy⟩ := Option.isSome_iff_exists.mp ((reread?_isSome_iff x).mpr h)
  have hreread : reread x = y := by
    rw [reread, hy]
    rfl
  rw [hreread]
  exact ⟨hy, reread?_isFinite hy⟩

end Json

end ExpertRouting
