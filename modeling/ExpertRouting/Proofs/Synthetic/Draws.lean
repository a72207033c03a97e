/-
  ExpertRouting.Proofs.Synthetic.Draws — the states a router passes, and the rows it leaves on its way.

  Whatever a router draws, it takes steps of its generator and nothing else, two for an expert
  and one for a weight, so after a row it is where some number of steps lead
  (`routeToken_after`, `routeBatch_after`). The experts of one search are drawn one behind the
  other from the state it begins in (`drawn`), and the search gives the first that is not taken
  (`drawFresh_eq_some`), none if all are (`drawFresh_eq_none_iff`).

  From every state on the way a row that is drawn fits the shape, its weights fall, and the
  sink takes it (`drawn_rows_fit_and_are_sound`). No state on the way is zero, whatever the seed,
  and states that differ stay different (`generator_never_collapses`); in the state zero a router
  would draw expert 0 for ever (`routeToken_of_state_zero`).
-/

import ExpertRouting.Proofs.Command.Batches
import ExpertRouting.Proofs.Synthetic.Generator

namespace ExpertRouting

namespace Router

open Function

def after (r : Router) (steps : Nat) : Router := { r with state := next^[steps] r.state }

@[simp] theorem after_shape (r : Router) (steps : Nat) : (r.after steps).shape = r.shape := rfl

@[simp] theorem after_state (r : Router) (steps : Nat) : (r.after steps).state = next^[steps] r.state := rfl

theorem after_after (r : Router) (m n : Nat) : (r.after m).after n = r.after (n + m) := by
  simp only [after, iterate_add_apply]

/-! ## Searching -/

/-- The expert of draw `i`, counted from a state. -/
def drawn (n s : UInt64) (i : Nat) : UInt32 := (drawExpert n (next^[2 * i] s)).1

theorem drawn_next (n s : UInt64) (i : Nat) : drawn n (drawExpert n s).2 i = drawn n s (i + 1) := by
  unfold drawn
  rw [show 2 * (i + 1) = 2 * i + 2 by omega, iterate_add_apply]
  rfl

theorem drawFresh_eq_some {n : UInt64} {taken : List UInt32} {draws : Nat} {s s' : UInt64} {e : UInt32}
    (h : drawFresh n taken draws s = some (e, s')) :
    e ∉ taken ∧ ∃ i < draws, e = drawn n s i ∧ s' = next^[2 * (i + 1)] s := by
  induction draws generalizing s with
  | zero => cases h
  | succ draws ih =>
    rw [drawFresh] at h
    simp only at h
    split at h
    · obtain ⟨hfresh, i, hi, he, hs⟩ := ih h
      refine ⟨hfresh, i + 1, by omega, by rw [he, drawn_next], ?_⟩
      rw [hs, show 2 * (i + 1 + 1) = 2 * (i + 1) + 2 by omega, iterate_add_apply]
      rfl
    · rename_i hfresh
      cases h
      exact ⟨fun hmem => hfresh (List.contains_iff_mem.mpr hmem), 0, by omega, rfl, rfl⟩

theorem drawFresh_eq_none_iff {n : UInt64} {taken : List UInt32} {draws : Nat} {s : UInt64} :
    drawFresh n taken draws s = none ↔ ∀ i < draws, drawn n s i ∈ taken := by
  induction draws generalizing s with
  | zero => simp [drawFresh]
  | succ draws ih =>
    rw [drawFresh]
    simp only
    split
    · rename_i htaken
      rw [ih]
      constructor
      · intro h i hi
        cases i with
        | zero => exact List.contains_iff_mem.mp htaken
        | succ i =>
          rw [← drawn_next]
          exact h i (by omega)
      · intro h i hi
        rw [drawn_next]
        exact h (i + 1) (by omega)
    · rename_i hfresh
      constructor
      · intro h
        cases h
      · intro h
        exact absurd (List.contains_iff_mem.mpr (h 0 (by omega))) hfresh

/-! ## States on the way -/

theorem drawExperts_state {n : UInt64} {k : Nat} {taken experts : List UInt32} {s s' : UInt64}
    (h : drawExperts n k taken s = some (experts, s')) : ∃ steps, s' = next^[steps] s := by
  induction k generalizing taken s with
  | zero =>
    cases h
    exact ⟨0, rfl⟩
  | succ k ih =>
    rw [drawExperts] at h
    cases hdraw : drawFresh n taken period s with
    | none =>
      rw [hdraw] at h
      cases h
    | some drawn =>
      obtain ⟨e, s₁⟩ := drawn
      rw [hdraw] at h
      obtain ⟨-, i, -, -, rfl⟩ := drawFresh_eq_some hdraw
      obtain ⟨steps, rfl⟩ := ih h
      exact ⟨steps + 2 * (i + 1), by rw [iterate_add_apply]⟩

theorem drawWeights_state (k : Nat) (s : UInt64) : (drawWeights k s).2 = next^[k] s := by
  induction k generalizing s with
  | zero => rfl
  | succ k ih =>
    simp only [drawWeights, ih]
    rfl

theorem routeToken_after {r r' : Router} {row : Row} (h : r.routeToken = some (row, r')) :
    ∃ steps, r' = r.after steps := by
  unfold routeToken at h
  split at h
  · cases h
  · rename_i experts s hexperts
    cases h
    obtain ⟨steps, rfl⟩ := drawExperts_state hexperts
    refine ⟨r.shape.topK.toNat + steps, ?_⟩
    rw [after, iterate_add_apply, drawWeights_state]

theorem routeBatch_after {r r' : Router} {tokens : Nat} {rows : List Row}
    (h : r.routeBatch tokens = some (rows, r')) : ∃ steps, r' = r.after steps := by
  induction tokens generalizing r rows with
  | zero =>
    cases h
    exact ⟨0, rfl⟩
  | succ tokens ih =>
    obtain ⟨row, next, more, htoken, hmore, -⟩ := routeBatch_succ_iff.mp h
    obtain ⟨first, rfl⟩ := routeToken_after htoken
    obtain ⟨rest, rfl⟩ := ih hmore
    exact ⟨rest + first, after_after r first rest⟩

theorem after_state_ne_zero {r : Router} (h : r.state ≠ 0) (steps : Nat) : (r.after steps).state ≠ 0 :=
  iterate_next_ne_zero h steps

/-- As many steps more take two routers to one state only from one state. -/
theorem after_state_inj {r r' : Router} {m n : Nat} (steps : Nat) :
    (r.after (steps + m)).state = (r'.after (steps + n)).state ↔ (r.after m).state = (r'.after n).state := by
  rw [← after_after, ← after_after, after_state, after_state]
  exact iterate_next_inj steps

/-! ## The state zero -/

theorem drawn_zero (n : UInt64) (i : Nat) : drawn n 0 i = 0 := by
  rw [drawn, iterate_next_zero]
  simp only [drawExpert, next_zero, UInt64.zero_mod]
  rfl

/-- The search for a second expert finds the first one again and again. -/
theorem routeToken_of_state_zero {r : Router} (hzero : r.state = 0) (hmany : 2 ≤ r.shape.topK.toNat) :
    r.routeToken = none := by
  obtain ⟨k, hk⟩ := Nat.exists_eq_add_of_le' hmany
  have hsecond : drawFresh r.shape.numExperts [0] period 0 = none := by
    refine drawFresh_eq_none_iff.mpr fun i _ => ?_
    rw [drawn_zero]
    exact List.mem_singleton.mpr rfl
  have hexperts : drawExperts r.shape.numExperts (k + 2) [] 0 = none := by
    rw [drawExperts]
    cases hfirst : drawFresh r.shape.numExperts [] period 0 with
    | none => rfl
    | some found =>
      obtain ⟨e, s⟩ := found
      obtain ⟨-, i, -, rfl, rfl⟩ := drawFresh_eq_some hfirst
      simp only [drawn_zero, iterate_next_zero, drawExperts, hsecond]
  rw [routeToken, hzero, hk, hexperts]

/-! ## Falling weights -/

theorem normalize_falls (ws : List Real32) : (normalize ws).Pairwise fun a b => b.rank ≤ a.rank := by
  have htrans : ∀ a b c : Real32, decide (b.rank ≤ a.rank) = true → decide (c.rank ≤ b.rank) = true →
      decide (c.rank ≤ a.rank) = true := by
    intro a b c hab hbc
    simp only [decide_eq_true_eq] at hab hbc ⊢
    omega
  have htotal : ∀ a b : Real32, (decide (b.rank ≤ a.rank) || decide (a.rank ≤ b.rank)) = true := by
    intro a b
    simp only [Bool.or_eq_true, decide_eq_true_eq]
    omega
  have hsorted := List.pairwise_mergeSort htrans htotal (ws.map (· / ws.foldl (· + ·) (Binary.zero false)))
  simp only [decide_eq_true_eq] at hsorted
  exact hsorted

theorem routeToken_falls {r r' : Router} {row : Row} (h : r.routeToken = some (row, r')) :
    row.weights.Pairwise fun a b => b.rank ≤ a.rank := by
  unfold routeToken at h
  split at h
  · cases h
  · cases h
    exact normalize_falls _

end Router

/-- A router is made for a shape, with any seed, and has taken any number of steps since. When it
    gives a row, the row has as many experts as the shape wants, all different and each of the
    shape, and as many weights, in falling order; the weights are finite, and a batch of the row
    has no fault under the shape. The router it leaves is one that some more steps lead to. -/
theorem Router.drawn_rows_fit_and_are_sound {seed : UInt64} {shape : Shape} {r : Router}
    (hmade : ofSeed? seed shape = some r) (steps : Nat) {row : Row} {r' : Router}
    (hrow : (r.after steps).routeToken = some (row, r')) :
    (row.experts.length = shape.topK.toNat ∧ row.experts.Nodup ∧
        ∀ e ∈ row.experts, e.toNat < shape.numExperts.toNat) ∧
      (row.weights.length = shape.topK.toNat ∧ row.weights.Pairwise fun a b => b.rank ≤ a.rank) ∧
      ((∀ w ∈ row.weights, w.isFinite = true) ∧ (Batch.ofRows [row]).fault? (some shape) = none) ∧
      ∃ more, r' = r.after more := by
  obtain ⟨hsound, hshape⟩ := ofSeed_eq_some hmade
  have hpos : 0 < (r.after steps).shape.numExperts.toNat := by
    rw [after_shape, hshape]
    exact Shape.numExperts_pos hsound
  obtain ⟨hfits, -⟩ := routeToken_fits hpos hrow
  rw [after_shape, hshape] at hfits
  have hfinite := routeToken_isFinite hrow
  have hfault : (Batch.ofRows [row]).fault? (some shape) = none :=
    Batch.ofRows_sound (List.forall_mem_singleton.mpr hfits) (List.forall_mem_singleton.mpr hfinite)
  obtain ⟨more, hafter⟩ := routeToken_after hrow
  rw [after_after] at hafter
  exact ⟨⟨hfits.experts, hfits.distinct, hfits.below⟩, ⟨hfits.weights, routeToken_falls hrow⟩, ⟨hfinite, hfault⟩,
    more + steps, hafter⟩

/-- More experts than 32 bits can number, of which every row takes three. -/
theorem Router.rows_of_many_experts_fit :
    let shape : Shape := ⟨3, 4294967300⟩
    ∃ r row r', ofSeed? 7 shape = some r ∧ (r.after 5).routeToken = some (row, r') ∧ row.experts.length = 3 ∧
      row.experts.Nodup ∧ (Batch.ofRows [row]).fault? (some shape) = none := by
  intro shape
  have hmade : ofSeed? 7 shape = some ⟨7, shape⟩ := by decide
  have hsome : ((⟨7, shape⟩ : Router).after 5).routeToken.isSome = true := by decide +kernel
  obtain ⟨⟨row, r'⟩, hrow⟩ := Option.isSome_iff_exists.mp hsome
  obtain ⟨⟨hexperts, hdistinct, -⟩, -, ⟨-, hfault⟩, -⟩ := drawn_rows_fit_and_are_sound hmade 5 hrow
  exact ⟨_, row, r', hmade, hrow, hexperts, hdistinct, hfault⟩

/-- Two states that step to one are one, and only zero steps to zero. So the state of a router is
    not zero after any number of draws, and the rows it gives lead it on by draws alone; that holds
    for every seed, and a sound shape makes a router of each. And two routers that come to one
    state by as many draws more were in one state before them. -/
theorem Router.generator_never_collapses :
    (Function.Injective next ∧ ∀ s, next s = 0 ↔ s = 0) ∧
      (∀ (seed : UInt64) (shape : Shape), (ofSeed? seed shape).isSome = shape.sound ∧
        ∀ r, ofSeed? seed shape = some r →
          (∀ draws, (r.after draws).state ≠ 0) ∧
            ∀ draws tokens rows r', (r.after draws).routeBatch tokens = some (rows, r') →
              ∃ more, r' = r.after (more + draws)) ∧
      ∀ (r r' : Router) (m n draws : Nat),
        (r.after (draws + m)).state = (r'.after (draws + n)).state ↔ (r.after m).state = (r'.after n).state := by
  refine ⟨⟨next_injective, fun _ => next_eq_zero_iff⟩, ?_, fun r r' m n draws => after_state_inj draws⟩
  intro seed shape
  refine ⟨ofSeed_isSome seed shape, ?_⟩
  intro r hmade
  refine ⟨after_state_ne_zero (ofSeed_state_ne_zero hmade), ?_⟩
  intro draws tokens rows r' hrows
  obtain ⟨more, rfl⟩ := routeBatch_after hrows
  exact ⟨more, after_after r draws more⟩

/-- A seed of zero draws as well as any other, and never comes to where the seed 2 is by then. -/
theorem Router.seeds_zero_and_two_never_meet :
    let shape : Shape := ⟨4, 60⟩
    ∃ r r', ofSeed? 0 shape = some r ∧ ofSeed? 2 shape = some r' ∧
      ∀ draws, (r.after draws).state ≠ 0 ∧ (r.after draws).state ≠ (r'.after draws).state := by
  intro shape
  have hzero : ofSeed? 0 shape = some ⟨1, shape⟩ := by decide
  have htwo : ofSeed? 2 shape = some ⟨3, shape⟩ := by decide
  obtain ⟨-, hmade, hsame⟩ := generator_never_collapses
  obtain ⟨hnonzero, -⟩ := (hmade 0 shape).2 _ hzero
  refine ⟨_, _, hzero, htwo, ?_⟩
  intro draws
  refine ⟨hnonzero draws, ?_⟩
  intro hmeet
  -- they would have met before the first draw
  have hstart := (hsame ⟨1, shape⟩ ⟨3, shape⟩ 0 0 draws).mp hmeet
  cases hstart

end ExpertRouting
