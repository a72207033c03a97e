/-
  ExpertRouting.Proofs.Synthetic.Router — what a router that returns has drawn.

  An expert is drawn below the number of experts, also when it is cut to 32 bits, and is
  taken only if it is not among those taken already (`drawFresh_spec`). So a row that is drawn
  to its end has `topK` different experts of the shape and as many weights
  (`routeToken_fits`), and rows that are drawn together are the rows drawn one part after the
  other (`routeBatch_add_iff`).
-/

import ExpertRouting.Synthetic

namespace ExpertRouting

structure Row.Fits (shape : Shape) (row : Row) : Prop where
  distinct : row.experts.Nodup
  experts : row.experts.length = shape.topK.toNat
  below : ∀ e ∈ row.experts, e.toNat < shape.numExperts.toNat
  weights : row.weights.length = shape.topK.toNat

theorem Shape.numExperts_pos {shape : Shape} (h : shape.sound = true) : 0 < shape.numExperts.toNat := by
  simp only [sound, Bool.and_eq_true, decide_eq_true_eq, UInt64.lt_iff_toNat_lt, UInt64.le_iff_toNat_le] at h
  exact Nat.lt_of_lt_of_le h.1 h.2

namespace Router

/-! ## Experts -/

theorem drawExpert_lt {n : UInt64} (hn : 0 < n.toNat) (s : UInt64) : (drawExpert n s).1.toNat < n.toNat := by
  have hmin : ∀ a b : UInt64, (min (a % n) (b % n)).toNat < n.toNat := by
    intro a b
    show (if a % n ≤ b % n then a % n else b % n).toNat < n.toNat
    split
    · rw [UInt64.toNat_mod]
      exact Nat.mod_lt _ hn
    · rw [UInt64.toNat_mod]
      exact Nat.mod_lt _ hn
  simp only [drawExpert, UInt64.toNat_toUInt32]
  exact Nat.lt_of_le_of_lt (Nat.mod_le _ _) (hmin _ _)

/-- An expert that is drawn is one of the shape's and none of those taken. -/
theorem drawFresh_spec {n : UInt64} (hn : 0 < n.toNat) {taken : List UInt32} {draws : Nat} {s s' : UInt64} {e : UInt32}
    (h : drawFresh n taken draws s = some (e, s')) : e ∉ taken ∧ e.toNat < n.toNat := by
  induction draws generalizing s with
  | zero => cases h
  | succ draws ih =>
    rw [drawFresh] at h
    simp only at h
    split at h
    · exact ih h
    · rename_i hfresh
      cases h
      exact ⟨fun hmem => hfresh (List.contains_iff_mem.mpr hmem), drawExpert_lt hn s⟩

/-- The experts taken and `k` more, all different and all of the shape. -/
theorem drawExperts_spec {n : UInt64} (hn : 0 < n.toNat) {k : Nat} {taken experts : List UInt32} {s s' : UInt64}
    (h : drawExperts n k taken s = some (experts, s')) (hdistinct : taken.Nodup)
    (hbelow : ∀ e ∈ taken, e.toNat < n.toNat) :
    experts.Nodup ∧ experts.length = taken.length + k ∧ ∀ e ∈ experts, e.toNat < n.toNat := by
  induction k generalizing taken s with
  | zero =>
    cases h
    refine ⟨(List.reverse_perm taken).nodup_iff.mpr hdistinct, List.length_reverse, fun e he => hbelow e (List.mem_reverse.mp he)⟩
  | succ k ih =>
    rw [drawExperts] at h
    cases hdraw : drawFresh n taken period s with
    | none =>
      rw [hdraw] at h
      cases h
    | some drawn =>
      obtain ⟨e, s₁⟩ := drawn
      rw [hdraw] at h
      obtain ⟨hfresh, he⟩ := drawFresh_spec hn hdraw
      obtain ⟨hexperts, hlength, hall⟩ := ih h (List.nodup_cons.mpr ⟨hfresh, hdistinct⟩)
        (List.forall_mem_cons.mpr ⟨he, hbelow⟩)
      refine ⟨hexperts, ?_, hall⟩
      rw [hlength, List.length_cons]
      omega

/-! ## Weights -/

@[simp] theorem length_drawWeights (k : Nat) (s : UInt64) : (drawWeights k s).1.length = k := by
  induction k generalizing s with
  | zero => rfl
  | succ k ih =>
    simp only [drawWeights, List.length_cons, ih]

@[simp] theorem length_normalize (ws : List Real32) : (normalize ws).length = ws.length := by
  simp only [normalize, List.length_mergeSort, List.length_map]

/-! ## Rows -/

/-- A router is made for sound shapes, and for the shape it was asked for. -/
theorem ofSeed_eq_some {seed : UInt64} {shape : Shape} {r : Router} (h : ofSeed? seed shape = some r) :
    shape.sound = true ∧ r.shape = shape := by
  unfold ofSeed? at h
  split at h
  · rename_i hsound
    cases h
    exact ⟨hsound, rfl⟩
  · cases h

/-- The shape alone decides, whatever the seed. -/
theorem ofSeed_isSome (seed : UInt64) (shape : Shape) : (ofSeed? seed shape).isSome = shape.sound := by
  unfold ofSeed?
  split
  · rename_i hsound
    exact hsound.symm
  · rename_i hunsound
    exact (Bool.eq_false_iff.mpr hunsound).symm

theorem routeToken_fits {r r' : Router} {row : Row} (hn : 0 < r.shape.numExperts.toNat)
    (h : r.routeToken = some (row, r')) : row.Fits r.shape ∧ r'.shape = r.shape := by
  unfold routeToken at h
  split at h
  · cases h
  · rename_i experts s hexperts
    cases h
    obtain ⟨hdistinct, hlength, hbelow⟩ :=
      drawExperts_spec hn hexperts List.nodup_nil (fun e he => absurd he List.not_mem_nil)
    refine ⟨⟨hdistinct, hlength.trans (Nat.zero_add _), hbelow, ?_⟩, rfl⟩
    simp only [length_normalize, length_drawWeights]

theorem routeBatch_succ_iff {r r' : Router} {n : Nat} {rows : List Row} :
    r.routeBatch (n + 1) = some (rows, r') ↔
      ∃ row next more, r.routeToken = some (row, next) ∧ next.routeBatch n = some (more, r') ∧ rows = row :: more := by
  rw [routeBatch]
  constructor
  · intro h
    split at h
    · cases h
    · rename_i row next htoken
      split at h
      · cases h
      · rename_i more last hmore
        cases h
        exact ⟨row, next, more, htoken, hmore, rfl⟩
  · rintro ⟨row, next, more, htoken, hmore, rfl⟩
    simp only [htoken, hmore]

theorem length_routeBatch {r r' : Router} {n : Nat} {rows : List Row} (h : r.routeBatch n = some (rows, r')) :
    rows.length = n := by
  induction n generalizing r rows with
  | zero =>
    cases h
    rfl
  | succ n ih =>
    obtain ⟨row, next, more, -, hmore, rfl⟩ := routeBatch_succ_iff.mp h
    exact congrArg Nat.succ (ih hmore)

theorem routeBatch_fits {r r' : Router} {n : Nat} {rows : List Row} (hn : 0 < r.shape.numExperts.toNat)
    (h : r.routeBatch n = some (rows, r')) : ∀ row ∈ rows, row.Fits r.shape := by
  induction n generalizing r rows with
  | zero =>
    cases h
    exact fun row hrow => absurd hrow List.not_mem_nil
  | succ n ih =>
    obtain ⟨row, next, more, htoken, hmore, rfl⟩ := routeBatch_succ_iff.mp h
    obtain ⟨hrow, hshape⟩ := routeToken_fits hn htoken
    have hall := ih (hshape ▸ hn) hmore
    rw [hshape] at hall
    exact List.forall_mem_cons.mpr ⟨hrow, hall⟩

/-- Rows drawn together are those drawn in two parts, and leave the router in the same state. -/
theorem routeBatch_add_iff {r r' : Router} {m n : Nat} {rows : List Row} :
    r.routeBatch (m + n) = some (rows, r') ↔
      ∃ first next second, r.routeBatch m = some (first, next) ∧ next.routeBatch n = some (second, r') ∧
        rows = first ++ second := by
  induction m generalizing r rows with
  | zero =>
    rw [Nat.zero_add]
    constructor
    · intro h
      exact ⟨[], r, rows, rfl, h, rfl⟩
    · rintro ⟨first, next, second, hfirst, hsecond, rfl⟩
      cases hfirst
      exact hsecond
  | succ m ih =>
    rw [Nat.succ_add, routeBatch_succ_iff]
    constructor
    · rintro ⟨row, next, more, htoken, hmore, rfl⟩
      obtain ⟨first, middle, second, hfirst, hsecond, rfl⟩ := ih.mp hmore
      exact ⟨row :: first, middle, second, routeBatch_succ_iff.mpr ⟨row, next, first, htoken, hfirst, rfl⟩, hsecond, rfl⟩
    · rintro ⟨front, middle, second, hfront, hsecond, rfl⟩
      obtain ⟨row, next, first, htoken, hfirst, rfl⟩ := routeBatch_succ_iff.mp hfront
      exact ⟨row, next, first ++ second, htoken, ih.mpr ⟨first, middle, second, hfirst, hsecond, rfl⟩, rfl⟩

end Router

end ExpertRouting
