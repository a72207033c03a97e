/-
  ExpertRouting.Proofs.Usage.Histogram — a histogram is the count of every expert.

  One choice adds one to one entry and leaves the others, whether the list reached that far
  or had to be filled up first (`bump_getD`), and once it is filled up the entry is there
  (`addOne?_filled`). So after any choices, in whatever order and with whatever gaps, the list
  reaches just to the highest expert and each entry is the number of its choices
  (`ofExperts_eq`), all choices are counted once (`total_ofExperts`), and the order of the
  choices does not matter (`ofExperts_perm`). Choices made after others add their histogram,
  entry by entry (`ofExperts_append`). The histogram of any routes has all this at once
  (`build_counts_choices`).
-/

import Mathlib
import ExpertRouting.Usage.Histogram

namespace ExpertRouting.Histogram

/-- One more than the highest of some experts; zero without any. -/
def reach (experts : List UInt32) : Nat := experts.foldr (fun e n => max (e.toNat + 1) n) 0

theorem reach_perm {a b : List UInt32} (h : a.Perm b) : reach a = reach b :=
  h.foldr_eq' (fun x _ y _ n => by omega) 0

theorem reach_le_of_lt {experts : List UInt32} {n : Nat} (h : ∀ e ∈ experts, e.toNat < n) : reach experts ≤ n := by
  induction experts with
  | nil => exact Nat.zero_le _
  | cons e experts ih =>
    obtain ⟨hfirst, hrest⟩ := List.forall_mem_cons.mp h
    exact Nat.max_le.mpr ⟨hfirst, ih hrest⟩

theorem reach_le (experts : List UInt32) : reach experts ≤ UInt32.size := reach_le_of_lt fun e _ => e.toNat_lt

/-! ## One choice -/

/-- A list that does not reach entry `i`, with zeros after it, ends just before that entry. -/
theorem size_filled_front {counts : Array Nat} {i : Nat} (h : ¬ i < counts.size) :
    (counts ++ Array.replicate (i - counts.size) 0).size = i := by
  rw [Array.size_append, Array.size_replicate]
  omega

theorem bump_size (counts : Array Nat) (i : Nat) : (bump counts i).size = max counts.size (i + 1) := by
  unfold bump
  split
  · rw [Array.size_set]
    omega
  · rename_i h
    rw [Array.size_push, size_filled_front h]
    omega

theorem bump_getD (counts : Array Nat) (i k : Nat) :
    (bump counts i)[k]?.getD 0 = counts[k]?.getD 0 + if i = k then 1 else 0 := by
  unfold bump
  split
  · rename_i h
    rw [Array.getElem?_set]
    by_cases hk : i = k
    · subst hk
      simp [h]
    · simp [hk]
  · rename_i h
    rw [Array.getElem?_push, size_filled_front h]
    by_cases hk : i = k
    · subst hk
      simp [h]
    · rw [if_neg (Ne.symm hk), if_neg hk, Nat.add_zero, Array.getElem?_append]
      by_cases hin : k < counts.size
      · rw [if_pos hin]
      · rw [if_neg hin, Array.getElem?_replicate, Array.getElem?_eq_none (by omega)]
        split <;> rfl

theorem bump_sum (counts : Array Nat) (i : Nat) : (bump counts i).toList.sum = counts.toList.sum + 1 := by
  unfold bump
  split
  · rename_i h
    have hsplit : counts.toList.sum = (counts.toList.take i).sum + counts[i] + (counts.toList.drop (i + 1)).sum := by
      rw [← List.sum_take_add_sum_drop counts.toList i, List.drop_eq_getElem_cons (by simpa using h), List.sum_cons,
        Array.getElem_toList, Nat.add_assoc]
    rw [Array.toList_set, List.sum_set, if_pos (by simpa using h), hsplit]
    omega
  · simp

/-! ## Any choices -/

theorem foldl_bump_size (experts : List UInt32) (counts : Array Nat) :
    (experts.foldl (fun counts e => bump counts e.toNat) counts).size = max counts.size (reach experts) := by
  induction experts generalizing counts with
  | nil => exact (Nat.max_zero _).symm
  | cons e experts ih =>
    rw [List.foldl_cons, ih, bump_size]
    show _ = max counts.size (max (e.toNat + 1) (reach experts))
    omega

theorem foldl_bump_getD (experts : List UInt32) (counts : Array Nat) (k : Nat) :
    (experts.foldl (fun counts e => bump counts e.toNat) counts)[k]?.getD 0 =
      counts[k]?.getD 0 + (experts.map UInt32.toNat).count k := by
  induction experts generalizing counts with
  | nil => rfl
  | cons e experts ih =>
    rw [List.foldl_cons, ih, bump_getD, List.map_cons, List.count_cons]
    simp only [beq_iff_eq]
    omega

theorem foldl_bump_sum (experts : List UInt32) (counts : Array Nat) :
    (experts.foldl (fun counts e => bump counts e.toNat) counts).toList.sum = counts.toList.sum + experts.length := by
  induction experts generalizing counts with
  | nil => rfl
  | cons e experts ih =>
    rw [List.foldl_cons, ih, bump_sum, List.length_cons]
    omega

theorem total_ofExperts (experts : List UInt32) : (ofExperts experts).total = experts.length := by
  show (experts.foldl (fun counts e => bump counts e.toNat) #[]).toList.sum = _
  rw [foldl_bump_sum]
  exact Nat.zero_add _

/-- Every entry is the number of choices of its expert, up to the highest one chosen. -/
theorem ofExperts_eq (experts : List UInt32) :
    ofExperts experts = ⟨(List.range (reach experts)).map fun k => (experts.map UInt32.toNat).count k⟩ := by
  unfold ofExperts
  congr 1
  have hsize := foldl_bump_size experts #[]
  have hcount := foldl_bump_getD experts #[]
  generalize experts.foldl (fun counts e => bump counts e.toNat) #[] = counts at hsize hcount
  refine List.ext_getElem ?_ fun k hk hk' => ?_
  · rw [Array.length_toList, hsize, List.length_map, List.length_range]
    exact Nat.zero_max _
  · have h := hcount k
    rw [Array.length_toList] at hk
    rw [Array.getElem?_eq_getElem hk, Option.getD_some] at h
    rw [Array.getElem_toList, h, List.getElem_map, List.getElem_range]
    exact Nat.zero_add _

example : ofExperts [5, 1, 5] = ⟨[0, 1, 0, 0, 0, 2]⟩ := by decide

theorem numExperts_ofExperts (experts : List UInt32) : (ofExperts experts).numExperts = reach experts := by
  rw [numExperts, ofExperts_eq, List.length_map, List.length_range]

theorem count_ofExperts (experts : List UInt32) (k : Nat) :
    (ofExperts experts).counts[k]?.getD 0 = (experts.map UInt32.toNat).count k := by
  have h := foldl_bump_getD experts #[] k
  rw [← Array.getElem?_toList] at h
  exact h.trans (Nat.zero_add _)

theorem le_length_of_mem {experts : List UInt32} {n : Nat} (h : n ∈ (ofExperts experts).counts) :
    n ≤ experts.length := by
  rw [ofExperts_eq] at h
  obtain ⟨k, -, rfl⟩ := List.mem_map.mp h
  exact Nat.le_trans List.count_le_length (Nat.le_of_eq (List.length_map ..))

theorem ofExperts_perm {a b : List UInt32} (h : a.Perm b) : ofExperts a = ofExperts b := by
  have hcount : ∀ k, (a.map UInt32.toNat).count k = (b.map UInt32.toNat).count k := fun k => (h.map _).count_eq k
  rw [ofExperts_eq, ofExperts_eq, reach_perm h]
  simp only [hcount]

theorem build_perm {a b : List Route} (h : a.Perm b) : build a = build b := ofExperts_perm (h.flatMap_right _)

/-! ## The entry is there -/

def filled (counts : Array Nat) (i : Nat) : Array Nat := counts ++ Array.replicate (i + 1 - counts.size) 0

/-- Adds one to entry `i`, if the list has one. -/
def addOne? (counts : Array Nat) (i : Nat) : Option (Array Nat) :=
  if h : i < counts.size then some (counts.set i (counts[i] + 1)) else none

theorem addOne?_filled (counts : Array Nat) (i : Nat) : addOne? (filled counts i) i = some (bump counts i) := by
  unfold addOne? filled bump
  by_cases h : i < counts.size
  · have hnone : i + 1 - counts.size = 0 := by omega
    simp [h, hnone]
  · have hmore : i + 1 - counts.size = i - counts.size + 1 := by omega
    have hsize := size_filled_front h
    rw [dif_neg h, hmore, Array.replicate_succ, Array.append_push]
    generalize counts ++ Array.replicate (i - counts.size) 0 = front at hsize ⊢
    subst hsize
    simp [Array.set_push]

/-- Choices counted by filling up the list and adding one find every entry. -/
theorem foldlM_addOne? (experts : List UInt32) (counts : Array Nat) :
    (experts.map UInt32.toNat).foldlM (fun counts i => addOne? (filled counts i) i) counts =
      some (experts.foldl (fun counts e => bump counts e.toNat) counts) := by
  induction experts generalizing counts with
  | nil => rfl
  | cons e experts ih =>
    rw [List.map_cons, List.foldlM_cons, addOne?_filled]
    exact ih _

/-! ## Choices after others -/

theorem reach_append (a b : List UInt32) : reach (a ++ b) = max (reach a) (reach b) := by
  induction a with
  | nil => exact (Nat.zero_max _).symm
  | cons e a ih =>
    show max (e.toNat + 1) (reach (a ++ b)) = max (max (e.toNat + 1) (reach a)) (reach b)
    rw [ih, Nat.max_assoc]

theorem reach_eq_max? (experts : List UInt32) :
    reach experts = ((experts.map UInt32.toNat).max?.map (· + 1)).getD 0 := by
  induction experts with
  | nil => rfl
  | cons e experts ih =>
    show max (e.toNat + 1) (reach experts) = _
    rw [ih, List.map_cons, List.max?_cons]
    cases (experts.map UInt32.toNat).max? <;> simp

theorem getElem?_ofExperts (experts : List UInt32) (k : Nat) :
    (ofExperts experts).counts[k]? = if k < reach experts then some ((experts.map UInt32.toNat).count k) else none := by
  rw [ofExperts_eq, List.getElem?_map]
  by_cases h : k < reach experts
  · rw [if_pos h, List.getElem?_range h, Option.map_some]
  · rw [if_neg h, List.getElem?_eq_none (by simpa using h), Option.map_none]

theorem count_eq_zero_of_reach_le {experts : List UInt32} {k : Nat} (h : ¬ k < reach experts) :
    (experts.map UInt32.toNat).count k = 0 := by
  rw [← count_ofExperts, getElem?_ofExperts, if_neg h, Option.getD_none]

/-- Entries are added up, and one that only one of the histograms has is kept. -/
theorem ofExperts_append (a b : List UInt32) :
    (ofExperts (a ++ b)).counts =
      List.zipWithAll (fun m n => m.getD 0 + n.getD 0) (ofExperts a).counts (ofExperts b).counts := by
  refine List.ext_getElem? fun k => ?_
  rw [List.getElem?_zipWithAll, getElem?_ofExperts, getElem?_ofExperts, getElem?_ofExperts, reach_append,
    List.map_append, List.count_append]
  by_cases ha : k < reach a
  · by_cases hb : k < reach b
    · simp [ha, hb]
    · simp [ha, hb, count_eq_zero_of_reach_le hb]
  · by_cases hb : k < reach b
    · simp [ha, hb, count_eq_zero_of_reach_le ha]
    · simp [ha, hb]

/-! ## Routes -/

/-- The last entry is that of the highest expert, and it was chosen. -/
theorem getLast?_pos {experts : List UInt32} {n : Nat} (h : n ∈ (ofExperts experts).counts.getLast?) : 0 < n := by
  rw [ofExperts_eq, List.getLast?_map, List.getLast?_range, reach_eq_max?] at h
  cases hmax : (experts.map UInt32.toNat).max? with
  | none => simp [hmax] at h
  | some top =>
    obtain rfl : (experts.map UInt32.toNat).count top = n := by simpa [hmax] using h
    exact List.count_pos_iff.mpr (List.max?_mem hmax)

/-- Routes with rows of any width and any experts. Their histogram has one entry more than the
    number of the highest expert, or none without a choice; entry `i` is the number of times that
    expert `i` was chosen; the last entry is not zero; counting by filling up the list and adding
    one to an entry never misses the entry; and the total is the number of choices. The histogram
    of these routes and more is the sum of the two, the shorter one filled up with zeros. -/
theorem build_counts_choices (routes : List Route) :
    let chosen := (routes.flatMap (·.experts)).map UInt32.toNat
    (build routes).numExperts = (chosen.max?.map (· + 1)).getD 0 ∧
      (∀ i, (build routes).counts[i]?.getD 0 = chosen.count i) ∧
      (∀ n ∈ (build routes).counts.getLast?, 0 < n) ∧
      chosen.foldlM (fun counts i => addOne? (filled counts i) i) #[] = some (build routes).counts.toArray ∧
      (build routes).total = chosen.length ∧
      ∀ more, (build (routes ++ more)).counts =
        List.zipWithAll (fun m n => m.getD 0 + n.getD 0) (build routes).counts (build more).counts := by
  intro chosen
  refine ⟨?_, count_ofExperts _, fun n hn => getLast?_pos hn, ?_, ?_, fun more => ?_⟩
  · rw [build, numExperts_ofExperts, reach_eq_max?]
  · rw [foldlM_addOne?]
    rfl
  · rw [build, total_ofExperts, List.length_map]
  · rw [build, List.flatMap_append, ofExperts_append]
    rfl

end ExpertRouting.Histogram
