/-
  ExpertRouting.Proofs.Usage.Ranking — the experts that a report lists are those chosen most.

  Experts are ranked by their counts alone. They come to the sort by rising number, and it
  leaves the experts of one count in the order they came in (`ranked_filter`); so of two experts
  the one with more choices comes first, and of two with as many the one with the lower number
  (`ranked_before`). The list is the beginning of that ranking, so whoever is not on it comes
  after all who are (`before_of_not_listed`), an expert that was never chosen is on it only when
  every chosen one is (`chosen_lt_of_zero_listed`), and its counts are some of all
  (`sum_topShares_le`). Together: `top_experts_come_first`.
-/

import Mathlib
import ExpertRouting.Usage.Metrics

namespace ExpertRouting

def Share.counted (s : Share) : Nat × Nat := (s.count, s.expert)

namespace Metrics

/-- An expert with its count is ahead of another: chosen more often, or as often and with the
    lower number. -/
def Before (p q : Nat × Nat) : Prop := q.1 < p.1 ∨ p.1 = q.1 ∧ p.2 < q.2

instance : DecidableRel Before := fun p q => inferInstanceAs (Decidable (q.1 < p.1 ∨ p.1 = q.1 ∧ p.2 < q.2))

example : Before (5, 3) (2, 0) ∧ Before (5, 1) (5, 3) := by decide

/-! ## The ranking -/

section Ranking

variable (counts : List Nat)

theorem zipIdx_numbered : counts.zipIdx.Pairwise fun p q => p.2 < q.2 := by
  have h : (counts.zipIdx.map Prod.snd).Pairwise (· < ·) := by
    rw [List.zipIdx_map_snd]
    exact List.pairwise_lt_range' 1
  exact List.pairwise_map.mp h

theorem ranked_perm : (ranked counts).Perm counts.zipIdx := List.mergeSort_perm ..

theorem mem_ranked {p : Nat × Nat} : p ∈ ranked counts ↔ counts[p.2]? = some p.1 := by
  rw [(ranked_perm counts).mem_iff, List.mem_zipIdx_iff_getElem?]

theorem fallingCount_trans (a b c : Nat × Nat) (hab : decide (b.1 ≤ a.1) = true) (hbc : decide (c.1 ≤ b.1) = true) :
    decide (c.1 ≤ a.1) = true := by
  rw [decide_eq_true_iff] at hab hbc ⊢
  omega

theorem fallingCount_total (a b : Nat × Nat) : (decide (b.1 ≤ a.1) || decide (a.1 ≤ b.1)) = true := by
  simp only [Bool.or_eq_true, decide_eq_true_iff]
  omega

theorem ranked_sorted : (ranked counts).Pairwise fun p q => q.1 ≤ p.1 := by
  have h := List.pairwise_mergeSort fallingCount_trans fallingCount_total counts.zipIdx
  exact h.imp of_decide_eq_true

/-- The experts of one count stay in the order of their numbers. -/
theorem ranked_filter (n : Nat) : (ranked counts).filter (·.1 == n) = counts.zipIdx.filter (·.1 == n) := by
  have hequal : (counts.zipIdx.filter (·.1 == n)).Pairwise fun p q => decide (q.1 ≤ p.1) = true := by
    refine List.pairwise_of_forall_mem_list fun p hp q hq => ?_
    have hpn := (List.mem_filter.mp hp).2
    have hqn := (List.mem_filter.mp hq).2
    simp only [beq_iff_eq] at hpn hqn
    simp [hpn, hqn]
  have hsub : (counts.zipIdx.filter (·.1 == n)).Sublist ((ranked counts).filter (·.1 == n)) := by
    have h := (List.sublist_mergeSort fallingCount_trans fallingCount_total hequal List.filter_sublist).filter (·.1 == n)
    rwa [List.filter_filter, show (fun p : Nat × Nat => p.1 == n && p.1 == n) = (·.1 == n) by simp] at h
  exact (hsub.eq_of_length ((ranked_perm counts).filter _).length_eq.symm).symm

theorem ranked_before : (ranked counts).Pairwise Before := by
  rw [List.pairwise_iff_forall_sublist]
  intro p q hpq
  have hle : q.1 ≤ p.1 := List.pairwise_iff_forall_sublist.mp (ranked_sorted counts) hpq
  rcases Nat.lt_or_eq_of_le hle with hlt | heq
  · exact .inl hlt
  · -- two of one count stand in the ranking as they stand among the numbered counts
    have hone : [p, q].Sublist ((ranked counts).filter (·.1 == p.1)) := by
      simpa [heq] using hpq.filter (·.1 == p.1)
    rw [ranked_filter] at hone
    have hnumbered := List.pairwise_iff_forall_sublist.mp (zipIdx_numbered counts) (hone.trans List.filter_sublist)
    exact .inr ⟨heq.symm, hnumbered⟩

theorem ranked_numbers_nodup : ((ranked counts).map Prod.snd).Nodup := by
  rw [((ranked_perm counts).map Prod.snd).nodup_iff, List.zipIdx_map_snd]
  exact List.nodup_range'

theorem countP_ranked : (ranked counts).countP (0 < ·.1) = counts.countP (0 < ·) := by
  rw [(ranked_perm counts).countP_eq]
  conv_rhs => rw [← List.zipIdx_map_fst 0 counts, List.countP_map]
  rfl

/-! ## Its beginning -/

theorem length_take_ranked (k : Nat) : ((ranked counts).take k).length = min k counts.length := by
  rw [List.length_take, (ranked_perm counts).length_eq, List.length_zipIdx]

theorem sum_take_ranked_le (k : Nat) : (((ranked counts).take k).map Prod.fst).sum ≤ counts.sum := by
  have hsub := ((List.take_sublist k (ranked counts)).map Prod.fst).sum_le_sum fun _ _ => Nat.zero_le _
  rwa [((ranked_perm counts).map Prod.fst).sum_eq, List.zipIdx_map_fst] at hsub

variable {counts}

/-- Who is not at the beginning comes after all who are. -/
theorem before_of_not_listed {k : Nat} {p q : Nat × Nat} (hp : p ∈ (ranked counts).take k)
    (hq : counts[q.2]? = some q.1) (hnot : q ∉ (ranked counts).take k) : Before p q := by
  have hsplit := ranked_before counts
  rw [← List.take_append_drop k (ranked counts), List.pairwise_append] at hsplit
  have hmem : q ∈ (ranked counts).take k ++ (ranked counts).drop k := by
    rw [List.take_append_drop]
    exact (mem_ranked counts).mpr hq
  rcases List.mem_append.mp hmem with hin | hafter
  · exact absurd hin hnot
  · exact hsplit.2.2 p hp q hafter

/-- After an expert that was never chosen comes none that was. -/
theorem chosen_lt_of_zero_listed {k : Nat} {p : Nat × Nat} (hp : p ∈ (ranked counts).take k) (hzero : p.1 = 0) :
    counts.countP (0 < ·) < k := by
  obtain ⟨front, back, hsplit⟩ := List.append_of_mem hp
  have hranked : ranked counts = front ++ p :: (back ++ (ranked counts).drop k) := by
    rw [← List.cons_append, ← List.append_assoc, ← hsplit, List.take_append_drop]
  have hbefore := ranked_before counts
  rw [hranked, List.pairwise_append, List.pairwise_cons] at hbefore
  have hnone : (p :: (back ++ (ranked counts).drop k)).countP (0 < ·.1) = 0 := by
    rw [List.countP_eq_zero]
    intro q hq
    rcases List.mem_cons.mp hq with rfl | hq
    · simp [hzero]
    · rcases hbefore.2.1.1 q hq with hlt | ⟨heq, -⟩
      · omega
      · simp [← heq, hzero]
  have hfront : front.length < k := by
    have hlength := congrArg List.length hsplit
    rw [List.length_take, List.length_append, List.length_cons] at hlength
    omega
  have hle : front.countP (0 < ·.1) ≤ front.length := List.countP_le_length
  rw [← countP_ranked, hranked, List.countP_append, hnone]
  omega

end Ranking

/-! ## The list of a report -/

theorem topShares_counted (counts : List Nat) (total : Nat) :
    (topShares counts total).map Share.counted = (ranked counts).take topCount := by
  rw [topShares, List.map_map]
  exact List.map_id _

theorem counted_listed {counts : List Nat} {total : Nat} {s : Share} (h : s ∈ topShares counts total) :
    s.counted ∈ (ranked counts).take topCount := by
  rw [← topShares_counted counts total]
  exact List.mem_map_of_mem h

theorem getElem?_of_listed {counts : List Nat} {total : Nat} {s : Share} (h : s ∈ topShares counts total) :
    counts[s.expert]? = some s.count := (mem_ranked counts).mp (List.mem_of_mem_take (counted_listed h))

theorem sum_topShares_le (counts : List Nat) (total : Nat) :
    Histogram.sum ((topShares counts total).map (·.count)) ≤ Histogram.sum counts := by
  have hsum := sum_take_ranked_le counts topCount
  rw [← topShares_counted counts total, List.map_map] at hsum
  exact hsum

theorem total_compute (h : Histogram) : (compute h).total = h.total := by
  unfold compute
  simp only
  split
  · rename_i hzero
    exact hzero.symm
  · rfl

theorem compute_top {h : Histogram} (htotal : 0 < h.total) : (compute h).top = topShares h.counts h.total := by
  unfold compute
  rw [if_neg (Nat.ne_of_gt htotal)]

theorem numExperts_compute (h : Histogram) : (compute h).numExperts = h.numExperts := by
  unfold compute
  simp only
  split <;> rfl

theorem sum_top_le (h : Histogram) : Histogram.sum ((compute h).top.map (·.count)) ≤ (compute h).total := by
  rcases Nat.eq_zero_or_pos h.total with hzero | hpos
  · unfold compute
    rw [if_pos hzero]
    exact Nat.zero_le _
  · rw [compute_top hpos, total_compute]
    exact sum_topShares_le h.counts h.total

/-- A histogram with any number of experts and at least one choice. The report on it lists three
    experts, or all if there are fewer; they are different, and each stands with its own count.
    The list is in order, more choices first and among equals the lower number; every expert that
    is not on it comes after all that are. One that was never chosen is on it only if fewer than
    three were chosen at all. The counts on it add up to no more than the total. -/
theorem top_experts_come_first {h : Histogram} (htotal : 0 < h.total) :
    let top := (compute h).top
    top.length = min 3 h.numExperts ∧
      (top.map (·.expert)).Nodup ∧
      (∀ s ∈ top, s.expert < h.numExperts ∧ h.counts[s.expert]? = some s.count) ∧
      top.Pairwise (fun s t => Before (s.count, s.expert) (t.count, t.expert)) ∧
      (∀ e n, h.counts[e]? = some n → e ∉ top.map (·.expert) → ∀ s ∈ top, Before (s.count, s.expert) (n, e)) ∧
      (∀ s ∈ top, s.count = 0 → h.counts.countP (0 < ·) < 3) ∧
      Histogram.sum (top.map (·.count)) ≤ (compute h).total := by
  intro top
  have htop : top = topShares h.counts h.total := compute_top htotal
  have hcounted : top.map Share.counted = (ranked h.counts).take 3 := htop ▸ topShares_counted h.counts h.total
  have hlisted : ∀ s ∈ top, s.counted ∈ (ranked h.counts).take 3 := fun s hs => counted_listed (htop ▸ hs)
  refine ⟨?_, ?_, fun s hs => ?_, ?_, fun e n hn hnot s hs => ?_, fun s hs hzero => ?_, sum_top_le h⟩
  · rw [← List.length_map Share.counted, hcounted, length_take_ranked]
    rfl
  · have hnumbers := (ranked_numbers_nodup h.counts).sublist ((List.take_sublist 3 _).map Prod.snd)
    rw [← hcounted, List.map_map] at hnumbers
    exact hnumbers
  · have hcount := getElem?_of_listed (htop ▸ hs)
    exact ⟨(List.getElem?_eq_some_iff.mp hcount).1, hcount⟩
  · have hbefore := (ranked_before h.counts).sublist (List.take_sublist 3 _)
    rw [← hcounted, List.pairwise_map] at hbefore
    exact hbefore
  · refine before_of_not_listed (hlisted s hs) hn fun hin => hnot ?_
    rw [← hcounted] at hin
    obtain ⟨t, ht, hte⟩ := List.mem_map.mp hin
    exact List.mem_map.mpr ⟨t, ht, congrArg Prod.snd hte⟩
  · exact chosen_lt_of_zero_listed (hlisted s hs) hzero

/-- Two experts share the first place and three the next, of which only the lowest is listed; a
    sixth was never chosen. -/
theorem ties_are_cut_by_number :
    let h : Histogram := ⟨[2, 5, 0, 5, 2, 2]⟩
    let top := (compute h).top
    0 < h.total ∧ top.map Share.counted = [(5, 1), (5, 3), (2, 0)] ∧
      top.Pairwise (fun s t => Before (s.count, s.expert) (t.count, t.expert)) ∧
      (∀ e n, h.counts[e]? = some n → e ∉ top.map (·.expert) → ∀ s ∈ top, Before (s.count, s.expert) (n, e)) ∧
      Histogram.sum (top.map (·.count)) ≤ 16 := by
  intro h top
  have htotal : 0 < h.total := by decide
  have hranked : ranked h.counts = [(5, 1), (5, 3), (2, 0), (2, 4), (2, 5), (0, 2)] := by
    simp [h, ranked, List.mergeSort]
  have hcounted : top.map Share.counted = [(5, 1), (5, 3), (2, 0)] := by
    rw [show top = topShares h.counts h.total from compute_top htotal, topShares_counted, hranked]
    rfl
  obtain ⟨-, -, -, hordered, hfirst, -, hsum⟩ := top_experts_come_first htotal
  exact ⟨htotal, hcounted, hordered, hfirst, hsum⟩

end Metrics

end ExpertRouting
