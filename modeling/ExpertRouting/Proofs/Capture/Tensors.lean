/-
  ExpertRouting.Proofs.Capture.Tensors — a batch in tensors is the batch of their rows.

  A tensor of rank two lists its rows one behind the other (`RowsOf`), in one way only
  (`RowsOf.eq_split`), and one that is transposed lists its columns (`RowsOf.transpose`). The
  ids are read row by row, and reading stops at the first that is no 32-bit number
  (`expertRows_cases`). The weights pass through single precision, which every one of the
  narrower formats survives (`ofWeights_reals`). So a sink that gets as far as looking at two
  tensors refuses them for a rank or an id, and is then left as it was, or does just what it
  does with their rows (`tensors_are_recorded_as_their_rows`).
-/

import ExpertRouting.Capture.Basic
import ExpertRouting.Binary.Words
import ExpertRouting.Proofs.Binary.Widening

namespace ExpertRouting

/-- Rows that a tensor of this shape lists one behind the other. -/
structure RowsOf {α : Type} (shape : List Nat) (xs : List α) (rows : List (List α)) : Prop where
  /-- As many rows as the shape says, and in each as many entries. -/
  fits : ∃ c, shape = [rows.length, c] ∧ ∀ row ∈ rows, row.length = c
  listed : rows.flatten = xs

theorem Elements.length_integers (e : Elements) : e.integers.length = e.count := by
  cases e <;> exact List.length_map _

/-- The first id, row by row, that is no 32-bit number, and the row it stands in. -/
def FirstOutside (rows : List (List Int)) (row : Nat) (id : Int) : Prop :=
  ∃ before fitting rest after, rows = before ++ (fitting ++ id :: rest) :: after ∧ before.length = row ∧
    (∀ ids ∈ before, ∀ i ∈ ids, 0 ≤ i ∧ i < UInt32.size) ∧ (∀ i ∈ fitting, 0 ≤ i ∧ i < UInt32.size) ∧
    ¬(0 ≤ id ∧ id < UInt32.size)

theorem FirstOutside.outside {rows : List (List Int)} {row : Nat} {id : Int} (h : FirstOutside rows row id) :
    ∃ ids ∈ rows, ∃ i ∈ ids, ¬(0 ≤ i ∧ i < UInt32.size) := by
  obtain ⟨before, fitting, rest, after, rfl, -, -, -, hout⟩ := h
  exact ⟨fitting ++ id :: rest, by simp, id, by simp, hout⟩

namespace Tensor

variable {α β : Type}

/-! ## Rows -/

theorem split_map (g : α → β) (c r : Nat) (xs : List α) : split c r (xs.map g) = (split c r xs).map (·.map g) := by
  induction r generalizing xs with
  | zero => rfl
  | succ r ih => simp only [split, List.map_cons, List.map_take, ← List.map_drop, ih]

theorem rowsOf_split {c r : Nat} {xs : List α} (h : xs.length = r * c) : RowsOf [r, c] xs (split c r xs) := by
  induction r generalizing xs with
  | zero =>
    rw [Nat.zero_mul] at h
    exact ⟨⟨c, rfl, fun row hrow => nomatch hrow⟩, (List.eq_nil_of_length_eq_zero h).symm⟩
  | succ r ih =>
    rw [Nat.succ_mul] at h
    have hlength : (xs.drop c).length = r * c := by
      rw [List.length_drop]
      omega
    obtain ⟨⟨c', hshape, hwidths⟩, hlisted⟩ := ih hlength
    obtain ⟨hr, rfl⟩ : r = (split c r (xs.drop c)).length ∧ c = c' := by simpa using hshape
    refine ⟨⟨c, ?_, ?_⟩, ?_⟩
    · rw [split, List.length_cons, ← hr]
    · refine List.forall_mem_cons.mpr ⟨?_, hwidths⟩
      rw [List.length_take]
      omega
    · rw [split, List.flatten_cons, hlisted, List.take_append_drop]

end Tensor

namespace RowsOf

variable {α : Type} {c r : Nat} {xs : List α} {rows : List (List α)}

theorem eq_split (h : RowsOf [r, c] xs rows) : rows = Tensor.split c r xs := by
  obtain ⟨⟨c', hshape, hwidths⟩, rfl⟩ := h
  obtain ⟨rfl, rfl⟩ : r = rows.length ∧ c = c' := by simpa using hshape
  clear hshape
  induction rows with
  | nil => rfl
  | cons row rows ih =>
    obtain ⟨hrow, hrows⟩ := List.forall_mem_cons.mp hwidths
    rw [List.length_cons, Tensor.split, List.flatten_cons, List.take_left' hrow, List.drop_left' hrow, ← ih hrows]

theorem getElem?_flatten (hwidths : ∀ row ∈ rows, row.length = c) {i j : Nat} (hj : j < c) :
    rows.flatten[i * c + j]? = rows[i]?.bind (·[j]?) := by
  induction rows generalizing i with
  | nil => rfl
  | cons row rows ih =>
    obtain ⟨hrow, hrows⟩ := List.forall_mem_cons.mp hwidths
    cases i with
    | zero =>
      rw [List.flatten_cons, Nat.zero_mul, Nat.zero_add, List.getElem?_append_left (by omega)]
      rfl
    | succ i =>
      rw [List.flatten_cons, List.getElem?_append_right (by rw [Nat.succ_mul]; omega), List.getElem?_cons_succ,
        ← ih hrows, hrow, Nat.succ_mul]
      congr 1
      omega

/-- The rows of a transposed tensor are the columns. -/
theorem transpose (h : RowsOf [r, c] xs rows) :
    RowsOf [c, r] (Elements.transposeList r c xs) ((List.range c).map fun j => rows.filterMap (·[j]?)) := by
  obtain ⟨⟨c', hshape, hwidths⟩, rfl⟩ := h
  obtain ⟨rfl, rfl⟩ : r = rows.length ∧ c = c' := by simpa using hshape
  refine ⟨⟨rows.length, by simp, ?_⟩, ?_⟩
  · intro column hcolumn
    obtain ⟨j, hj, rfl⟩ := List.mem_map.mp hcolumn
    have hall : ∀ row ∈ rows, (row[j]?).isSome = true := by
      intro row hrow
      rw [List.getElem?_eq_getElem (by rw [hwidths row hrow]; exact List.mem_range.mp hj)]
      rfl
    rw [List.length_filterMap_eq_countP, List.countP_eq_length.mpr hall]
  · rw [Elements.transposeList, List.flatten_eq_flatMap, List.flatMap_map]
    refine List.flatMap_congr fun j hj => ?_
    have hentry : ∀ i ∈ List.range rows.length, rows.flatten[i * c + j]? = rows[i]?.bind (·[j]?) :=
      fun i _ => getElem?_flatten hwidths (List.mem_range.mp hj)
    have hrows : (List.range rows.length).map (rows[·]?) = rows.map some := by
      refine List.ext_getElem (by simp) fun i hi _ => ?_
      rw [List.length_map, List.length_range] at hi
      simp [List.getElem?_eq_getElem hi]
    calc rows.filterMap (·[j]?) = (rows.map some).filterMap (·.bind (·[j]?)) := by
          rw [List.filterMap_map]
          rfl
      _ = (List.range rows.length).filterMap fun i => rows[i]?.bind (·[j]?) := by
          rw [← hrows, List.filterMap_map]
          rfl
      _ = _ := (List.filterMap_congr hentry).symm

end RowsOf

namespace Tensor

/-! ## Reading the ids -/

theorem expert_fits (e : UInt32) : 0 ≤ (e.toNat : Int) ∧ (e.toNat : Int) < UInt32.size := by
  have hlt := e.toNat_lt
  simp only [UInt32.size]
  omega

theorem expert_cases (row : Nat) (id : Int) :
    (¬(0 ≤ id ∧ id < UInt32.size) ∧ expert row id = .error (.expertOutOfRange row id (UInt32.size - 1))) ∨
      ∃ e : UInt32, (e.toNat : Int) = id ∧ expert row id = .ok e := by
  unfold expert
  by_cases h : 0 ≤ id ∧ id < UInt32.size
  · refine .inr ⟨UInt32.ofNat id.toNat, ?_, if_pos h⟩
    rw [UInt32.toNat_ofNat_of_lt' (by omega)]
    omega
  · exact .inl ⟨h, if_neg h⟩

theorem experts_cases (row : Nat) (ids : List Int) :
    (∃ (fitting : List Int) (id : Int) (rest : List Int), ids = fitting ++ id :: rest ∧
        (∀ i ∈ fitting, 0 ≤ i ∧ i < UInt32.size) ∧ ¬(0 ≤ id ∧ id < UInt32.size) ∧
        ids.mapM (expert row) = .error (.expertOutOfRange row id (UInt32.size - 1))) ∨
      ∃ experts : List UInt32, experts.map (fun e => (e.toNat : Int)) = ids ∧ ids.mapM (expert row) = .ok experts := by
  induction ids with
  | nil => exact .inr ⟨[], rfl, rfl⟩
  | cons id ids ih =>
    rw [List.mapM_cons]
    rcases expert_cases row id with ⟨hout, hread⟩ | ⟨e, rfl, hread⟩
    · refine .inl ⟨[], id, ids, rfl, (fun i hi => nomatch hi), hout, ?_⟩
      rw [hread]
      rfl
    · rcases ih with ⟨fitting, id, rest, rfl, hfitting, hout, hrest⟩ | ⟨experts, rfl, hrest⟩
      · have hfits : ∀ i ∈ (e.toNat : Int) :: fitting, 0 ≤ i ∧ i < UInt32.size :=
          List.forall_mem_cons.mpr ⟨expert_fits e, hfitting⟩
        refine .inl ⟨e.toNat :: fitting, id, rest, rfl, hfits, hout, ?_⟩
        rw [hread, hrest]
        rfl
      · refine .inr ⟨e :: experts, rfl, ?_⟩
        rw [hread, hrest]
        rfl

theorem expertRows_cases (n : Nat) (rows : List (List Int)) :
    (∃ row id, FirstOutside rows row id ∧
        expertRows n rows = .error (.expertOutOfRange (n + row) id (UInt32.size - 1))) ∨
      ∃ experts : List (List UInt32), experts.map (·.map fun e => (e.toNat : Int)) = rows ∧
        expertRows n rows = .ok experts := by
  induction rows generalizing n with
  | nil => exact .inr ⟨[], rfl, rfl⟩
  | cons ids rows ih =>
    rw [expertRows]
    rcases experts_cases n ids with ⟨fitting, id, rest, rfl, hfitting, hout, hread⟩ | ⟨experts, rfl, hread⟩
    · refine .inl ⟨0, id, ⟨[], fitting, rest, rows, rfl, rfl, (fun i hi => nomatch hi), hfitting, hout⟩, ?_⟩
      rw [hread]
      rfl
    · rcases ih (n + 1) with ⟨row, id, hfirst, hrest⟩ | ⟨more, rfl, hrest⟩
      · obtain ⟨before, fitting, rest, after, rfl, rfl, hbefore, hfitting, hout⟩ := hfirst
        have hfits : ∀ i ∈ experts.map fun e => (e.toNat : Int), 0 ≤ i ∧ i < UInt32.size := by
          intro i hi
          obtain ⟨e, -, rfl⟩ := List.mem_map.mp hi
          exact expert_fits e
        refine .inl ⟨before.length + 1, id, ⟨_ :: before, fitting, rest, after, rfl, rfl,
          List.forall_mem_cons.mpr ⟨hfits, hbefore⟩, hfitting, hout⟩, ?_⟩
        rw [hread, hrest, Nat.add_right_comm, Nat.add_assoc]
        rfl
      · refine .inr ⟨experts :: more, rfl, ?_⟩
        rw [hread, hrest]
        rfl

/-- The weights of a narrower format lose nothing on their way. -/
theorem ofWeights_reals {f : Format} (hf : f = binary16 ∨ f = bfloat16 ∨ f = binary32) (experts : List (List UInt32))
    (c r : Nat) (xs : List (Binary f)) :
    Batch.ofWeights experts (split c r (Elements.real f xs).reals) = Batch.ofWeights experts (split c r xs) := by
  rw [Elements.reals, split_map, Batch.ofWeights, Batch.ofWeights, List.map_map]
  congr 1
  refine List.map_congr_left fun row _ => ?_
  rw [Function.comp_apply, List.map_map]
  exact List.map_congr_left fun w _ => Binary.convert_convert (Binary.widens_binary32 hf) binary64 w

/-! ## The batch of two tensors -/

theorem size_of_rank {t : Tensor} (h : t.shape.length ≠ 2) : t.size? = .error (.tensorRank t.shape) := by
  unfold size?
  split
  · rename_i hshape
    exact absurd (by rw [hshape]; rfl) h
  · rfl

theorem batch_ids_rank {ids : Tensor} (weights : Tensor) (h : ids.shape.length ≠ 2) :
    batch ids weights = .error (.tensorRank ids.shape) := by
  rw [batch, size_of_rank h]
  rfl

theorem batch_weights_rank {ids weights : Tensor} (hids : ids.shape.length = 2) (h : weights.shape.length ≠ 2) :
    batch ids weights = .error (.tensorRank weights.shape) := by
  obtain ⟨r, c, hshape⟩ := List.length_eq_two.mp hids
  rw [batch, size?, hshape, size_of_rank h]
  rfl

/-- An id that fits no 32 bits is refused, or the batch has the rows of both tensors, the weights
    in single precision. -/
theorem batch_reads {ids weights : Tensor} {r c r' c' : Nat} (hids : ids.shape = [r, c])
    (hweights : weights.shape = [r', c']) :
    (∃ row id, FirstOutside (split c r ids.elements.integers) row id ∧
        batch ids weights = .error (.expertOutOfRange row id (UInt32.size - 1))) ∨
      ∃ experts : List (List UInt32),
        experts.map (·.map fun e => (e.toNat : Int)) = split c r ids.elements.integers ∧
        batch ids weights = .ok (Batch.ofWeights experts (split c' r' weights.elements.reals)) := by
  have hbatch : batch ids weights = (expertRows 0 (split c r ids.elements.integers)).bind fun experts =>
      .ok (Batch.ofWeights experts (split c' r' weights.elements.reals)) := by
    rw [batch, size?, hids, size?, hweights]
    rfl
  rw [hbatch]
  rcases expertRows_cases 0 (split c r ids.elements.integers) with ⟨row, id, hfirst, hread⟩ | ⟨experts, hrows, hread⟩
  · refine .inl ⟨row, id, hfirst, ?_⟩
    rw [hread, Nat.zero_add]
    rfl
  · refine .inr ⟨experts, hrows, ?_⟩
    rw [hread]
    rfl

/-- Weights of a format of single precision or less are in the batch as they are. -/
theorem batch_cases {ids weights : Tensor} {f : Format} {xs : List (Binary f)}
    (hf : f = binary16 ∨ f = bfloat16 ∨ f = binary32) (hreal : weights.elements = .real f xs)
    {r c r' c' : Nat} (hids : ids.shape = [r, c]) (hweights : weights.shape = [r', c']) :
    (∃ row id, FirstOutside (split c r ids.elements.integers) row id ∧
        batch ids weights = .error (.expertOutOfRange row id (UInt32.size - 1))) ∨
      ∃ experts : List (List UInt32),
        experts.map (·.map fun e => (e.toNat : Int)) = split c r ids.elements.integers ∧
        batch ids weights = .ok (Batch.ofWeights experts (split c' r' xs)) := by
  rcases batch_reads hids hweights with hrefused | ⟨experts, hrows, hread⟩
  · exact .inl hrefused
  · refine .inr ⟨experts, hrows, ?_⟩
    rw [hread, hreal, ofWeights_reals hf]

end Tensor

namespace Capture

theorem recordTensors_eq {c : Capture} {layer : UInt64} (hopen : c.enabled = true) (hlayer : layer = c.layer)
    (ids weights : Tensor) (requestId : Option String) :
    c.recordTensors layer ids weights requestId =
      match Tensor.batch ids weights with
      | .error e => (.degraded e, c)
      | .ok b => c.recordBatch layer b requestId := by
  rw [recordTensors, hopen, if_neg (by decide)]
  exact if_neg (not_not_intro hlayer)

/-- An open sink is given two tensors for its layer, the weights in a format of single precision
    or less. Of the first that is not of rank two it reports the shape, ids before weights. Else
    both have rows, and it reports the first id that is no 32-bit number, with its row, or the
    ids are numbers of 32 bits, and the status, the stream and all else come out as when
    these rows are recorded with the weights in their own format. What is reported leaves the
    sink and its stream as they were. -/
theorem tensors_are_recorded_as_their_rows {c : Capture} {layer : UInt64} (hopen : c.enabled = true)
    (hlayer : layer = c.layer) {ids weights : Tensor} {f : Format}
    (hf : f = binary16 ∨ f = bfloat16 ∨ f = binary32) {xs : List (Binary f)} (hreal : weights.elements = .real f xs)
    (requestId : Option String) :
    (ids.shape.length ≠ 2 →
        c.recordTensors layer ids weights requestId = (.degraded (.tensorRank ids.shape), c)) ∧
      (ids.shape.length = 2 → weights.shape.length ≠ 2 →
        c.recordTensors layer ids weights requestId = (.degraded (.tensorRank weights.shape), c)) ∧
      (ids.shape.length = 2 → weights.shape.length = 2 → ∃ idRows weightRows,
        RowsOf ids.shape ids.elements.integers idRows ∧ RowsOf weights.shape xs weightRows ∧
          ((∃ row id, FirstOutside idRows row id ∧ c.recordTensors layer ids weights requestId =
              (.degraded (.expertOutOfRange row id (UInt32.size - 1)), c)) ∨
            ∃ experts : List (List UInt32), experts.map (·.map fun e => (e.toNat : Int)) = idRows ∧
              c.recordTensors layer ids weights requestId =
                c.recordBatch layer (Batch.ofWeights experts weightRows) requestId)) := by
  rw [recordTensors_eq hopen hlayer]
  refine ⟨?_, ?_, ?_⟩
  · intro hrank
    rw [Tensor.batch_ids_rank weights hrank]
  · intro hrank hrank'
    rw [Tensor.batch_weights_rank hrank hrank']
  · intro hrank hrank'
    obtain ⟨r, k, hshape⟩ := List.length_eq_two.mp hrank
    obtain ⟨r', k', hshape'⟩ := List.length_eq_two.mp hrank'
    have hcount : ids.elements.integers.length = r * k := by
      rw [ids.elements.length_integers, ids.filled, hshape]
      simp
    have hcount' : xs.length = r' * k' := by
      have hfilled := weights.filled
      rw [hreal, hshape'] at hfilled
      simpa [Elements.count] using hfilled
    refine ⟨_, _, hshape ▸ Tensor.rowsOf_split hcount, hshape' ▸ Tensor.rowsOf_split hcount', ?_⟩
    rcases Tensor.batch_cases hf hreal hshape hshape' with ⟨row, id, hfirst, hbatch⟩ | ⟨experts, hrows, hbatch⟩
    · exact .inl ⟨row, id, hfirst, by rw [hbatch]⟩
    · exact .inr ⟨experts, hrows, by rw [hbatch]⟩

theorem transposed_tensors_are_recorded_as_columns :
    let a := Binary.ofBits binary16 0x3800
    let b := Binary.ofBits binary16 0x3400
    let ids : Tensor := Tensor.transpose ⟨[2, 3], .i64 [1, 2, 3, 4, 5, 6], rfl⟩
    let weights : Tensor := Tensor.transpose ⟨[2, 3], .real binary16 [a, a, b, b, a, a], rfl⟩
    ∃ experts : List (List UInt32), experts.map (·.map fun e => (e.toNat : Int)) = [[1, 4], [2, 5], [3, 6]] ∧
      (onto {} 0).recordTensors 0 ids weights none =
        (onto {} 0).recordBatch 0 (Batch.ofWeights experts [[a, b], [a, a], [b, a]]) none := by
  intro a b ids weights
  have hlayer : (0 : UInt64) = (onto {} 0).layer := rfl
  have hreal : weights.elements = .real binary16 [a, b, a, a, b, a] := rfl
  have hranks : ids.shape.length = 2 ∧ weights.shape.length = 2 := ⟨rfl, rfl⟩
  obtain ⟨idRows, weightRows, hids, hweights, hrecorded⟩ :=
    (tensors_are_recorded_as_their_rows rfl hlayer (.inl rfl) hreal none).2.2 hranks.1 hranks.2
  obtain rfl : idRows = [[1, 4], [2, 5], [3, 6]] := hids.eq_split
  obtain rfl : weightRows = [[a, b], [a, a], [b, a]] := hweights.eq_split
  rcases hrecorded with ⟨row, id, hfirst, -⟩ | hrecorded
  · obtain ⟨ids, hmem, i, hi, hout⟩ := hfirst.outside
    have hfit : ∀ ids ∈ ([[1, 4], [2, 5], [3, 6]] : List (List Int)), ∀ i ∈ ids, 0 ≤ i ∧ i < UInt32.size := by
      decide
    exact absurd (hfit ids hmem i hi) hout
  · exact hrecorded

end Capture

end ExpertRouting
