/-
  ExpertRouting.Proofs.Capture.Rows — the rows that a call submits, and the routes it writes.

  A batch submits its experts row by row with their weights, and tensors the rows of their
  shapes (`rowsOf_iff`), ids as experts and weights in double precision. Both are said of what
  the caller hands over, without the sink (`Call.rows`); what the sink makes of a call has just
  these rows (`Call.rows_of_submission`). A call that is written has a header, or a route for
  each of its rows, in order (`written_cases`), and any other call has none. So an entry has as
  many routes as a written call has rows (`Entry.length_routes`).
-/

import Mathlib.Data.List.Forall2
import ExpertRouting.Proofs.Capture.Journal
import ExpertRouting.Proofs.Capture.Tensors
import ExpertRouting.Proofs.Trace.Contents

namespace ExpertRouting

/-! ## Rows of a shape -/

/-- The rows that a shape of rank two makes of a list. -/
def rowsIn {α : Type} : List Nat → List α → List (List α)
  | [r, c], xs => (List.range r).map fun i => (xs.drop (i * c)).take c
  | _, _ => []

theorem rowsIn_eq_split {α : Type} (r c : Nat) (xs : List α) : rowsIn [r, c] xs = Tensor.split c r xs := by
  induction r generalizing xs with
  | zero => rfl
  | succ r ih =>
    rw [Tensor.split, ← ih, rowsIn, rowsIn, List.range_succ_eq_map, List.map_cons, List.map_map, Nat.zero_mul,
      List.drop_zero]
    refine congrArg _ (List.map_congr_left fun i _ => ?_)
    rw [Function.comp_apply, List.drop_drop, Nat.succ_mul, Nat.add_comm]

theorem rowsOf_iff {α : Type} {shape : List Nat} {xs : List α} (hrank : shape.length = 2)
    (hfilled : xs.length = Tensor.places shape) {rows : List (List α)} : RowsOf shape xs rows ↔ rows = rowsIn shape xs := by
  obtain ⟨r, c, rfl⟩ := List.length_eq_two.mp hrank
  rw [rowsIn_eq_split]
  constructor
  · exact RowsOf.eq_split
  · rintro rfl
    exact Tensor.rowsOf_split (by simpa using hfilled)

/-! ## Rows of a call -/

structure SubmittedRow where
  requestId : Option String
  experts : List UInt32
  weights : List Real64

/-- A row is kept in a route: its experts, its weights to six places, its layer and its id. -/
structure SubmittedRow.KeptIn (layer : UInt64) (row : SubmittedRow) (r : Route) : Prop where
  experts : r.experts = row.experts
  weights : r.weights = row.weights.map roundWeight
  layer : r.layer = layer
  requestId : ∀ id, row.requestId = some id → r.requestId = id

/-- The rows that a call submits, in order. -/
def Call.rows : Call → List SubmittedRow
  | .batch _ b requestId => (b.experts.zip b.weights).map fun row => ⟨requestId, row.1, row.2⟩
  | .tensors _ ids weights requestId =>
    ((rowsIn ids.shape ids.elements.integers).zip (rowsIn weights.shape weights.elements.reals)).map fun row =>
      ⟨requestId, row.1.map fun id => UInt32.ofNat id.toNat, row.2.map (Binary.convert binary64)⟩
  | _ => []

theorem Tensor.rows_of_batch {ids weights : Tensor} {b : Batch} (h : Tensor.batch ids weights = .ok b) :
    b.rows = ((rowsIn ids.shape ids.elements.integers).zip (rowsIn weights.shape weights.elements.reals)).map
      fun row => (row.1.map fun id => UInt32.ofNat id.toNat, row.2.map (Binary.convert binary64)) := by
  have hrank : ids.shape.length = 2 := by
    by_contra hne
    rw [batch_ids_rank weights hne] at h
    cases h
  have hrank' : weights.shape.length = 2 := by
    by_contra hne
    rw [batch_weights_rank hrank hne] at h
    cases h
  obtain ⟨r, c, hshape⟩ := List.length_eq_two.mp hrank
  obtain ⟨r', c', hshape'⟩ := List.length_eq_two.mp hrank'
  rcases batch_reads hshape hshape' with ⟨row, id, -, hread⟩ | ⟨experts, hexperts, hread⟩
  · rw [hread] at h
    cases h
  · rw [hread] at h
    cases h
    have hback : ∀ row : List UInt32, (row.map fun e => (e.toNat : Int)).map (fun id => UInt32.ofNat id.toNat) = row := by
      intro row
      simp [Function.comp_def]
    rw [hshape, hshape', rowsIn_eq_split, rowsIn_eq_split, ← hexperts, Batch.rows, Batch.ofWeights, List.zip_map_left,
      List.zip_map_right, List.map_map]
    refine List.map_congr_left fun row _ => ?_
    simp only [Function.comp_apply, Prod.map, id, hback]

/-- What the sink makes of a call has the rows of the call. -/
theorem Call.rows_of_submission {k : Call} {sub : Submission} (h : k.submission? = some sub) :
    k.rows = sub.batch.rows.map fun row => ⟨sub.requestId, row.1, row.2⟩ := by
  cases k with
  | header s => cases h
  | batch layer b requestId =>
    cases h
    rfl
  | tensors layer ids weights requestId =>
    simp only [submission?] at h
    split at h
    · rename_i b hb
      cases h
      rw [Tensor.rows_of_batch hb, List.map_map]
      rfl
    · cases h
  | finish requestId => cases h
  | close => cases h

theorem Batch.routes_keep {b : Batch} {requestId : Option String} {id : String} (layer : UInt64) (first : Nat)
    (h : ∀ id', requestId = some id' → id = id') :
    List.Forall₂ (SubmittedRow.KeptIn layer) (b.rows.map fun r => ⟨requestId, r.1, r.2⟩) (b.routes id layer first) := by
  unfold routes
  generalize b.rows = rows
  generalize 0 = k
  induction rows generalizing k with
  | nil => exact .nil
  | cons row rows ih => exact .cons ⟨rfl, rfl, rfl, h⟩ (ih (k + 1))

/-- What holds of all rounded weights of some rows holds of all weights of the routes that keep them. -/
theorem weights_of_kept {layer : UInt64} {P : Real64 → Prop} {rows : List SubmittedRow} {routes : List Route}
    (h : List.Forall₂ (SubmittedRow.KeptIn layer) rows routes)
    (hrows : ∀ row ∈ rows, ∀ w ∈ row.weights, P (roundWeight w)) : ∀ r ∈ routes, ∀ w ∈ r.weights, P w := by
  induction h with
  | nil => exact fun r hr => absurd hr List.not_mem_nil
  | cons hrow _ ih =>
    obtain ⟨hfirst, hrest⟩ := List.forall_mem_cons.mp hrows
    refine List.forall_mem_cons.mpr ⟨?_, ih hrest⟩
    rw [hrow.weights]
    exact List.forall_mem_map.mpr hfirst

def Call.isHeader : Call → Bool
  | .header _ => true
  | _ => false

namespace Capture

theorem Takes.keeps {c : Capture} {k : Call} {sub : Submission} (h : c.Takes k sub) :
    List.Forall₂ (SubmittedRow.KeptIn c.layer) k.rows (c.routesOf sub) := by
  rw [routesOf, Call.rows_of_submission h.submits]
  refine Batch.routes_keep _ _ fun id hid => ?_
  rw [hid, origin_some]

/-! ## What a call writes -/

/-- A call writes a header and says so, or it writes the routes of the rows it accepted. -/
theorem written_cases (c : Capture) (k : Call) :
    (∃ s : Session, k = .header s ∧ (c.call k).1 = .status (.written 1) ∧
      (Entry.mk c k).written = [.header (s.header c.layer)]) ∨
    ((k.isHeader && (c.call k).1.accepted) = false ∧ ∃ routes, (Entry.mk c k).written = routes.map .route ∧
      List.Forall₂ (SubmittedRow.KeptIn c.layer) (if (c.call k).1.accepted then k.rows else []) routes) := by
  have he := call_effect c k
  unfold Entry.written Entry.reply
  generalize (c.call k).1 = reply at he ⊢
  generalize (c.call k).2 = after at he
  have hnone : ∀ {reply : Reply}, reply.accepted = false →
      (k.isHeader && reply.accepted) = false ∧ ∃ routes,
        (if reply.accepted then c.recordsOf k else []) = routes.map .route ∧
        List.Forall₂ (SubmittedRow.KeptIn c.layer) (if reply.accepted then k.rows else []) routes := by
    intro reply hr
    rw [hr, Bool.and_false]
    exact ⟨rfl, [], rfl, .nil⟩
  have hroutes : ∀ {sub : Submission} (n : Nat), c.Takes k sub →
      (k.isHeader && (Reply.status (.written n)).accepted) = false ∧ ∃ routes,
        (if (Reply.status (.written n)).accepted then c.recordsOf k else []) = routes.map .route ∧
        List.Forall₂ (SubmittedRow.KeptIn c.layer)
          (if (Reply.status (.written n)).accepted then k.rows else []) routes := by
    intro sub n ht
    refine ⟨?_, c.routesOf sub, ht.recordsOf, ht.keeps⟩
    have hsubmits := ht.submits
    cases k with
    | header s => cases hsubmits
    | _ => rfl
  cases he with
  | refused _ st hs => exact Or.inr (hnone (Status.accepted_of_refusal hs))
  | header s w he ha hs hw => exact Or.inl ⟨s, rfl, rfl, rfl⟩
  | headerLost s w e he ha hs hw => exact Or.inr (hnone rfl)
  | empty _ sub ht hb => exact Or.inr (hroutes 0 ht)
  | batch _ sub w ht hb hw => exact Or.inr (hroutes _ ht)
  | batchLost _ sub w e ht hb hw => exact Or.inr (hnone rfl)
  | finished requestId => exact Or.inr (hnone rfl)
  | closed => exact Or.inr (hnone rfl)

def Entry.routes (e : Entry) : List Route := e.written.filterMap Record.route?

theorem Entry.routes_eq {e : Entry} {routes : List Route} (h : e.written = routes.map .route) : e.routes = routes := by
  rw [Entry.routes, h, Trace.filterMap_route]

/-- The routes that a call writes keep the rows it accepted. -/
theorem entry_keeps (c : Capture) (k : Call) :
    List.Forall₂ (SubmittedRow.KeptIn c.layer) (if (c.call k).1.accepted then k.rows else []) (Entry.mk c k).routes := by
  rcases written_cases c k with ⟨s, rfl, hreply, hwritten⟩ | ⟨-, routes, hwritten, hkeeps⟩
  · rw [Entry.routes, hwritten, hreply]
    exact .nil
  · rw [Entry.routes_eq hwritten]
    exact hkeeps

/-- The rows of a call that is written. -/
def Entry.rowCount (e : Entry) : Nat := if e.reply.accepted then e.call.rows.length else 0

theorem Entry.length_routes (e : Entry) : e.routes.length = e.rowCount := by
  have hlength := (entry_keeps e.before e.call).length_eq
  rw [show Entry.mk e.before e.call = e from rfl] at hlength
  rw [← hlength, rowCount, reply]
  split <;> rfl

end Capture

end ExpertRouting
