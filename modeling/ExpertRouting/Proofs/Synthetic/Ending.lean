/-
  ExpertRouting.Proofs.Synthetic.Ending — when drawing a row ends.

  A router starts from a state that is not zero, and from there its draws come to every other
  one (`Router.reaches_evenly`). So the experts that turn up again and again are the same
  whatever the seed and however much has been drawn: those of all states but zero (`offered`).
  A search that fails once for each of these states would never succeed
  (`drawFresh_none_iff`), and `k` experts are found exactly when at least `k` are offered
  (`drawExperts_isSome_iff`, `row_ends_iff_experts_suffice`).

  How many are offered. An expert is the smaller of two numbers, each of which takes every
  value about equally often, so no expert is drawn from more than twice that many states
  (`cycle_le_offered`), and at least half of up to 2^32 experts are offered (`half_offered`). Not
  always all: where 256 divides the number of experts, the last one needs two odd states in
  a row of which the first ends in eight ones, and the step from such a state is even
  (`last_not_drawn`). So a row of all 256 experts never ends (`a_row_of_every_expert_never_ends`).
-/

import ExpertRouting.Proofs.Synthetic.Cycle
import ExpertRouting.Proofs.Synthetic.Draws

namespace ExpertRouting.Router

open Function

/-- The experts that are drawn from some state other than zero. -/
noncomputable def offered (n : UInt64) : Finset UInt32 := (Finset.univ.erase 0).image fun s => (drawExpert n s).1

theorem mem_offered_iff {n s : UInt64} (hs : s ≠ 0) {e : UInt32} : e ∈ offered n ↔ ∃ i < cycle, drawn n s i = e := by
  unfold offered
  rw [Finset.mem_image]
  constructor
  · rintro ⟨t, ht, rfl⟩
    obtain ⟨i, hi, rfl⟩ := reaches_evenly hs (Finset.mem_erase.mp ht).1
    exact ⟨i, hi, rfl⟩
  · rintro ⟨i, -, rfl⟩
    exact ⟨next^[2 * i] s, Finset.mem_erase.mpr ⟨iterate_next_ne_zero hs _, Finset.mem_univ _⟩, rfl⟩

theorem drawn_mem_offered {n s : UInt64} (hs : s ≠ 0) (i : Nat) : drawn n s i ∈ offered n := by
  refine Finset.mem_image.mpr ⟨next^[2 * i] s, ?_, rfl⟩
  exact Finset.mem_erase.mpr ⟨iterate_next_ne_zero hs _, Finset.mem_univ _⟩

/-! ## Searching to the end -/

/-- A search fails when every expert that is offered is taken. -/
theorem drawFresh_none_iff {n s : UInt64} (hs : s ≠ 0) {taken : List UInt32} :
    drawFresh n taken period s = none ↔ ∀ e ∈ offered n, e ∈ taken := by
  rw [drawFresh_eq_none_iff]
  constructor
  · intro h e he
    obtain ⟨i, hi, rfl⟩ := (mem_offered_iff hs).mp he
    exact h i (hi.trans (by decide))
  · intro h i _
    exact h _ (drawn_mem_offered hs i)

/-- `k` more experts are found exactly when that many are offered beside those taken. -/
theorem drawExperts_isSome_iff {n : UInt64} {k : Nat} {taken : List UInt32} {s : UInt64} (hs : s ≠ 0)
    (hdistinct : taken.Nodup) (htaken : ∀ e ∈ taken, e ∈ offered n) :
    (drawExperts n k taken s).isSome = true ↔ taken.length + k ≤ (offered n).card := by
  have hcard : taken.toFinset.card = taken.length := List.toFinset_card_of_nodup hdistinct
  induction k generalizing taken s with
  | zero =>
    have hle : taken.toFinset.card ≤ (offered n).card := by
      refine Finset.card_le_card fun e he => htaken e (List.mem_toFinset.mp he)
    simp only [drawExperts, Option.isSome_some, true_iff]
    omega
  | succ k ih =>
    rw [drawExperts]
    cases hdraw : drawFresh n taken period s with
    | none =>
      have hall := (drawFresh_none_iff hs).mp hdraw
      have hle : (offered n).card ≤ taken.toFinset.card := by
        refine Finset.card_le_card fun e he => List.mem_toFinset.mpr (hall e he)
      simp only [Option.isSome_none, Bool.false_eq_true, false_iff]
      omega
    | some found =>
      obtain ⟨e, s'⟩ := found
      obtain ⟨hfresh, i, -, he, rfl⟩ := drawFresh_eq_some hdraw
      have hmore : (e :: taken).Nodup := List.nodup_cons.mpr ⟨hfresh, hdistinct⟩
      have hoffered : ∀ e' ∈ e :: taken, e' ∈ offered n := by
        refine List.forall_mem_cons.mpr ⟨?_, htaken⟩
        rw [he]
        exact drawn_mem_offered hs i
      have hrest := ih (iterate_next_ne_zero hs (2 * (i + 1))) hmore hoffered (List.toFinset_card_of_nodup hmore)
      rw [List.length_cons] at hrest
      refine hrest.trans ?_
      omega

theorem routeToken_isSome (r : Router) :
    r.routeToken.isSome = (drawExperts r.shape.numExperts r.shape.topK.toNat [] r.state).isSome := by
  unfold routeToken
  cases drawExperts r.shape.numExperts r.shape.topK.toNat [] r.state with
  | none => rfl
  | some found => rfl

/-- Some number of draws gives `k` different experts exactly when `k` are offered. -/
theorem enough_draws_iff {n s : UInt64} (hs : s ≠ 0) (k : Nat) :
    (∃ draws, k ≤ ((Finset.range draws).image (drawn n s)).card) ↔ k ≤ (offered n).card := by
  constructor
  · rintro ⟨draws, h⟩
    refine h.trans (Finset.card_le_card fun e he => ?_)
    obtain ⟨i, -, rfl⟩ := Finset.mem_image.mp he
    exact drawn_mem_offered hs i
  · intro h
    refine ⟨cycle, h.trans (Finset.card_le_card fun e he => ?_)⟩
    obtain ⟨i, hi, rfl⟩ := (mem_offered_iff hs).mp he
    exact Finset.mem_image.mpr ⟨i, Finset.mem_range.mpr hi, rfl⟩

/-! ## At least half the experts are offered -/

/-- The expert that a number alone would give. -/
def cut (n a : UInt64) : UInt32 := (a % n).toUInt32

/-- How many numbers stand for one expert at most. -/
def share (n : UInt64) : Nat := (cycle / n.toNat + 1) * ((n.toNat - 1) / UInt32.size + 1)

theorem card_cut_le {n : UInt64} (hn : 0 < n.toNat) (e : UInt32) :
    (Finset.univ.filter fun a => cut n a = e).card ≤ share n := by
  have hcut : ∀ a, (cut n a).toNat = a.toNat % n.toNat % UInt32.size := by
    intro a
    simp [cut, UInt64.toNat_toUInt32, UInt64.toNat_mod]
  -- what is left of a number is its quotient, and what was cut off its rest
  have hle := Finset.card_le_card_of_injOn (s := Finset.univ.filter fun a => cut n a = e)
    (t := Finset.range (cycle / n.toNat + 1) ×ˢ Finset.range ((n.toNat - 1) / UInt32.size + 1))
    (fun a => (a.toNat / n.toNat, a.toNat % n.toNat / UInt32.size)) ?_ ?_
  · rwa [Finset.card_product, Finset.card_range, Finset.card_range] at hle
  · intro a _
    have hquotient : a.toNat / n.toNat ≤ cycle / n.toNat := by
      have hlt := a.toNat_lt
      exact Nat.div_le_div_right (show a.toNat ≤ UInt64.size - 1 by simp only [UInt64.size]; omega)
    have hrest : a.toNat % n.toNat / UInt32.size ≤ (n.toNat - 1) / UInt32.size := by
      have hlt := Nat.mod_lt a.toNat hn
      exact Nat.div_le_div_right (by omega)
    exact Finset.mem_product.mpr
      ⟨Finset.mem_range.mpr (Nat.lt_succ_of_le hquotient), Finset.mem_range.mpr (Nat.lt_succ_of_le hrest)⟩
  · intro a ha b hb hab
    have hsame : cut n a = cut n b := (Finset.mem_filter.mp ha).2.trans (Finset.mem_filter.mp hb).2.symm
    have hlow := congrArg UInt32.toNat hsame
    rw [hcut, hcut] at hlow
    obtain ⟨hquotient, hhigh⟩ := Prod.mk.inj hab
    have hrest : a.toNat % n.toNat = b.toNat % n.toNat := by
      rw [← Nat.div_add_mod (a.toNat % n.toNat) UInt32.size, hhigh, hlow, Nat.div_add_mod]
    apply UInt64.toNat_inj.mp
    rw [← Nat.div_add_mod a.toNat n.toNat, hquotient, hrest, Nat.div_add_mod]

theorem card_cut_comp_le {n : UInt64} (hn : 0 < n.toNat) (e : UInt32) {f : UInt64 → UInt64} (hf : Injective f) :
    (Finset.univ.filter fun s => cut n (f s) = e).card ≤ share n := by
  refine le_trans ?_ (card_cut_le hn e)
  refine Finset.card_le_card_of_injOn f ?_ hf.injOn
  intro s hs
  exact Finset.mem_filter.mpr ⟨Finset.mem_univ _, (Finset.mem_filter.mp hs).2⟩

theorem drawExpert_eq_cut (n s : UInt64) :
    (drawExpert n s).1 = cut n (next s) ∨ (drawExpert n s).1 = cut n (next (next s)) := by
  have hmin : (drawExpert n s).1 =
      (if next s % n ≤ next (next s) % n then next s % n else next (next s) % n).toUInt32 := rfl
  rw [hmin]
  split
  · exact .inl rfl
  · exact .inr rfl

/-- Every expert is drawn from few enough states that many must be offered. -/
theorem cycle_le_offered {n : UInt64} (hn : 0 < n.toNat) : cycle ≤ 2 * share n * (offered n).card := by
  have hstates : (Finset.univ.erase (0 : UInt64)).card = cycle := by
    rw [Finset.card_erase_of_mem (Finset.mem_univ _), Finset.card_univ, card_states]
    rfl
  rw [← hstates]
  refine Finset.card_le_mul_card_image _ _ fun e _ => ?_
  calc _ ≤ ((Finset.univ.filter fun s => cut n (next s) = e) ∪
          (Finset.univ.filter fun s => cut n (next (next s)) = e)).card := by
        refine Finset.card_le_card fun s hs => ?_
        have he := (Finset.mem_filter.mp hs).2
        simp only [Finset.mem_union, Finset.mem_filter, Finset.mem_univ, true_and]
        rcases drawExpert_eq_cut n s with h | h
        · exact .inl (h.symm.trans he)
        · exact .inr (h.symm.trans he)
    _ ≤ share n + share n := (Finset.card_union_le _ _).trans
        (Nat.add_le_add (card_cut_comp_le hn e next_injective)
          (card_cut_comp_le hn e (next_injective.comp next_injective)))
    _ = 2 * share n := (Nat.two_mul _).symm

/-- Half of the experts are offered where 32 bits number them all; of more there are at least 2^29. -/
theorem half_offered {n : UInt64} {k : Nat} (hk : 2 * k ≤ n.toNat) (hrange : n.toNat ≤ UInt32.size ∨ k ≤ 2 ^ 29) :
    k ≤ (offered n).card := by
  rcases Nat.eq_zero_or_pos k with rfl | hpos
  · exact Nat.zero_le _
  have hn : 0 < n.toNat := by omega
  by_contra hlt
  have hmany : cycle ≤ share n * (2 * (k - 1)) := by
    calc cycle ≤ 2 * share n * (offered n).card := cycle_le_offered hn
      _ ≤ 2 * share n * (k - 1) := Nat.mul_le_mul_left _ (by omega)
      _ = share n * (2 * (k - 1)) := by ring
  have hquotient := Nat.div_mul_le_self cycle n.toNat
  have hcycle : cycle = 2 ^ 64 - 1 := by decide
  have hsize : UInt32.size = 2 ^ 32 := by decide
  unfold share at hmany
  rw [hsize] at hmany hrange
  rcases Nat.lt_or_ge (2 ^ 32) n.toNat with hlarge | hsmall
  · have hk := hrange.resolve_left (by omega)
    have hq : cycle / n.toNat < 2 ^ 32 := (Nat.div_lt_iff_lt_mul hn).mpr (by omega)
    have hp := Nat.div_mul_le_self (n.toNat - 1) (2 ^ 32)
    have hword := n.toNat_lt
    generalize cycle / n.toNat = q at *
    generalize (n.toNat - 1) / 2 ^ 32 = p at *
    have hprod : q * p * 2 ^ 32 ≤ cycle := by
      calc q * p * 2 ^ 32 = q * (p * 2 ^ 32) := Nat.mul_assoc _ _ _
        _ ≤ q * n.toNat := Nat.mul_le_mul_left q (by omega)
        _ ≤ cycle := hquotient
    have hshare : (q + 1) * (p + 1) ≤ 3 * 2 ^ 32 := by
      have hexpand : (q + 1) * (p + 1) = q * p + q + p + 1 := by ring
      omega
    have hupper : (q + 1) * (p + 1) * (2 * (k - 1)) ≤ 3 * 2 ^ 32 * (2 * (k - 1)) := Nat.mul_le_mul_right _ hshare
    omega
  · have hone : (n.toNat - 1) / 2 ^ 32 = 0 := Nat.div_eq_of_lt (by omega)
    have hq : 2 ^ 32 - 1 ≤ cycle / n.toNat := by
      rw [Nat.le_div_iff_mul_le hn, hcycle]
      omega
    rw [hone, Nat.zero_add, Nat.mul_one] at hmany
    have hupper : (cycle / n.toNat + 1) * (2 * (k - 1)) ≤ (cycle / n.toNat + 1) * (n.toNat - 2) :=
      Nat.mul_le_mul_left _ (by omega)
    generalize cycle / n.toNat = q at *
    have hexpand : (q + 1) * (n.toNat - 2) + (q + 1) * 2 = q * n.toNat + n.toNat := by
      rw [← Nat.mul_add, Nat.sub_add_cancel (by omega)]
      ring
    omega

/-! ## Not always all of them -/

theorem testBit_shiftLeft_low (a : UInt64) {k i : Nat} (hk : k < 64) (hi : i < k) :
    (a <<< UInt64.ofNat k).toNat.testBit i = false := by
  rw [UInt64.toNat_shiftLeft, UInt64.toNat_ofNat_of_lt' (by simp [UInt64.size]; omega), Nat.mod_eq_of_lt hk,
    Nat.testBit_mod_two_pow, Nat.testBit_shiftLeft, decide_eq_false (show ¬ k ≤ i by omega), Bool.false_and,
    Bool.and_false]

/-- The shifts to the left leave the lowest bits, and the one to the right brings bit 7 down. -/
theorem next_lowest (a : UInt64) : (next a).toNat.testBit 0 = (a.toNat.testBit 0 ^^ a.toNat.testBit 7) := by
  have h13 : ∀ i < 13, (a <<< 13).toNat.testBit i = false := by
    intro i hi
    exact testBit_shiftLeft_low (k := 13) a (by omega) hi
  have h17 : ∀ b : UInt64, (b <<< 17).toNat.testBit 0 = false := by
    intro b
    exact testBit_shiftLeft_low (k := 17) b (by omega) (by omega)
  have h7 : ∀ b : UInt64, (b >>> 7).toNat.testBit 0 = b.toNat.testBit 7 := by
    intro b
    rw [UInt64.toNat_shiftRight, show (7 : UInt64).toNat % 64 = 7 from rfl, Nat.testBit_shiftRight]
  simp only [next, UInt64.toNat_xor, Nat.testBit_xor, h17, h7, h13 0 (by omega), h13 7 (by omega), Bool.xor_false]

theorem testBit_of_mod_eq_last {n a i : Nat} (hn : 256 ∣ n) (hpos : 0 < n) (ha : a % n = n - 1) (hi : i < 8) :
    a.testBit i = true := by
  have hlow : a % 2 ^ 8 = 2 ^ 8 - 1 := by
    have hmod := Nat.mod_mod_of_dvd a hn
    omega
  have hbit := Nat.testBit_mod_two_pow a 8 i
  rw [hlow, Nat.testBit_two_pow_sub_one, decide_eq_true hi, Bool.true_and] at hbit
  exact hbit.symm

theorem drawExpert_toNat (n s : UInt64) : (drawExpert n s).1.toNat =
    min ((next s).toNat % n.toNat) ((next (next s)).toNat % n.toNat) % UInt32.size := by
  have hmin : ∀ a b : UInt64, (min a b).toNat = min a.toNat b.toNat := by
    intro a b
    rw [show min a b = if a ≤ b then a else b from rfl]
    split
    · rename_i hle
      exact (Nat.min_eq_left (UInt64.le_iff_toNat_le.mp hle)).symm
    · rename_i hlt
      exact (Nat.min_eq_right (Nat.le_of_not_le fun hle => hlt (UInt64.le_iff_toNat_le.mpr hle))).symm
  simp only [drawExpert, UInt64.toNat_toUInt32, hmin, UInt64.toNat_mod]

theorem last_not_drawn {n : UInt64} (hn : 256 ∣ n.toNat) (hpos : 0 < n.toNat) (hsize : n.toNat ≤ UInt32.size)
    (s : UInt64) : (drawExpert n s).1.toNat ≠ n.toNat - 1 := by
  intro hlast
  have hfirst := Nat.mod_lt (next s).toNat hpos
  have hsecond := Nat.mod_lt (next (next s)).toNat hpos
  have hboth : (next s).toNat % n.toNat = n.toNat - 1 ∧ (next (next s)).toNat % n.toNat = n.toNat - 1 := by
    rw [drawExpert_toNat, Nat.mod_eq_of_lt (by omega)] at hlast
    omega
  have hodd := testBit_of_mod_eq_last hn hpos hboth.2 (show 0 < 8 by omega)
  rw [next_lowest, testBit_of_mod_eq_last hn hpos hboth.1 (show 0 < 8 by omega),
    testBit_of_mod_eq_last hn hpos hboth.1 (show 7 < 8 by omega)] at hodd
  cases hodd

/-- Where 256 divides the number of experts, the last of them is not offered. -/
theorem offered_lt {n : UInt64} (hn : 256 ∣ n.toNat) (hpos : 0 < n.toNat) (hsize : n.toNat ≤ UInt32.size) :
    (offered n).card < n.toNat := by
  have hle : (offered n).card ≤ (Finset.range (n.toNat - 1)).card := by
    refine Finset.card_le_card_of_injOn UInt32.toNat ?_ (fun a _ b _ hab => UInt32.toNat_inj.mp hab)
    intro e he
    obtain ⟨s, -, rfl⟩ := Finset.mem_image.mp he
    have hlast := last_not_drawn hn hpos hsize s
    have hbelow := drawExpert_lt hpos s
    exact Finset.mem_range.mpr (by omega)
  rw [Finset.card_range] at hle
  omega

/-! ## Whether a row ends -/

theorem routeToken_after_isSome_iff {seed : UInt64} {shape : Shape} {r : Router}
    (hmade : ofSeed? seed shape = some r) (steps : Nat) :
    (r.after steps).routeToken.isSome = true ↔ shape.topK.toNat ≤ (offered shape.numExperts).card := by
  have hstate : (r.after steps).state ≠ 0 := iterate_next_ne_zero (ofSeed_state_ne_zero hmade) steps
  have hdraws := drawExperts_isSome_iff (n := shape.numExperts) (k := shape.topK.toNat) hstate List.nodup_nil
    (fun e he => absurd he List.not_mem_nil)
  rw [routeToken_isSome, after_shape, (ofSeed_eq_some hmade).2, hdraws, List.length_nil, Nat.zero_add]

/-- A router is made for a shape, with any seed, and has taken any number of steps since. It gives
    a row exactly when some number of draws from there turns up as many different experts as the
    shape wants, which neither seed nor steps decide: that many must be drawn from all states
    but zero. So it is for half of all experts, where 32 bits number them, and for up to 2^29 of
    more. A row of all experts never ends where 256 divides their number. -/
theorem row_ends_iff_experts_suffice {seed : UInt64} {shape : Shape} {r : Router} (hmade : ofSeed? seed shape = some r)
    (steps : Nat) :
    ((r.after steps).routeToken.isSome = true ↔ ∃ draws, shape.topK.toNat ≤
        ((Finset.range draws).image (drawn shape.numExperts (r.after steps).state)).card) ∧
      ((r.after steps).routeToken.isSome = true ↔ shape.topK.toNat ≤ (offered shape.numExperts).card) ∧
      (2 * shape.topK.toNat ≤ shape.numExperts.toNat →
        shape.numExperts.toNat ≤ UInt32.size ∨ shape.topK.toNat ≤ 2 ^ 29 →
        (r.after steps).routeToken.isSome = true) ∧
      (shape.topK = shape.numExperts → 256 ∣ shape.numExperts.toNat → shape.numExperts.toNat ≤ UInt32.size →
        (r.after steps).routeToken = none) := by
  have hstate : (r.after steps).state ≠ 0 := iterate_next_ne_zero (ofSeed_state_ne_zero hmade) steps
  have hoffered := routeToken_after_isSome_iff hmade steps
  refine ⟨hoffered.trans (enough_draws_iff hstate _).symm, hoffered, ?_, ?_⟩
  · intro hhalf hrange
    exact hoffered.mpr (half_offered hhalf hrange)
  · intro hall hn hsize
    have hlt := offered_lt hn (Shape.numExperts_pos (ofSeed_eq_some hmade).1) hsize
    rw [← Option.not_isSome_iff_eq_none, hoffered, hall]
    omega

theorem half_of_the_experts_end_a_row :
    let shape : Shape := ⟨128, 256⟩
    ∃ r, ofSeed? 1234 shape = some r ∧ ∀ steps, (r.after steps).routeToken.isSome = true := by
  intro shape
  have hmade : ofSeed? 1234 shape = some ⟨1235, shape⟩ := by decide
  refine ⟨_, hmade, fun steps => ?_⟩
  obtain ⟨-, -, hhalf, -⟩ := row_ends_iff_experts_suffice hmade steps
  exact hhalf (by decide) (.inl (by decide))

/-- All 256 experts are wanted, and no number of draws turns up more than 255. -/
theorem a_row_of_every_expert_never_ends :
    ∃ r, ofSeed? 1 ⟨256, 256⟩ = some r ∧
      (∀ draws, ((Finset.range draws).image (drawn 256 r.state)).card < 256) ∧ r.routeToken = none := by
  have hmade : ofSeed? 1 ⟨256, 256⟩ = some ⟨1, ⟨256, 256⟩⟩ := by decide
  have hlt : (offered 256).card < 256 := offered_lt (by decide) (by decide) (by decide)
  refine ⟨_, hmade, ?_, ?_⟩
  · intro draws
    by_contra hmany
    have henough := (enough_draws_iff (n := 256) (ofSeed_state_ne_zero hmade) 256).mp ⟨draws, Nat.le_of_not_lt hmany⟩
    omega
  · have hended := routeToken_after_isSome_iff hmade 0
    rw [← Option.not_isSome_iff_eq_none]
    intro hsome
    have hle : 256 ≤ (offered 256).card := hended.mp hsome
    omega

end ExpertRouting.Router
